import Mathlib.Data.List.Basic

/-!
# Scans that stop at the first gap

A scan reads the entries of a partial sequence from index 0 on and stops at the first
index that has none.  A sequence without a gap keeps it running for ever, so the scan
takes fuel, one unit for every index that it looks at.
-/

namespace Scan

variable {Item : Type*}

/-- Collect the items of the source up to the first gap. -/
def scan : Nat → (Nat → Option Item) → Option (List Item)
  | 0, _ => none
  | fuel + 1, source =>
      match source 0 with
      | none => some []
      | some item => (scan fuel fun index => source (index + 1)).map (item :: ·)

/-- A scan ends with some items exactly when the source starts with them, has a gap
behind them, and there is fuel for the gap. -/
theorem scan_eq_some_iff {fuel : Nat} {source : Nat → Option Item} {items : List Item} :
    scan fuel source = some items ↔
      items.length < fuel ∧ ∀ index ≤ items.length, source index = items[index]? := by
  induction fuel generalizing source items with
  | zero => simp [scan]
  | succ fuel ih =>
      rw [scan]
      cases first : source 0 with
      | none =>
          constructor
          · intro ended
            obtain rfl := Option.some.inj ended
            simp [first]
          · rintro ⟨-, agree⟩
            have atFront := agree 0 (Nat.zero_le _)
            rw [first, eq_comm, List.getElem?_eq_none_iff] at atFront
            rw [List.length_eq_zero_iff.mp (Nat.le_zero.mp atFront)]
      | some item =>
          simp only [Option.map_eq_some_iff, ih]
          constructor
          · rintro ⟨rest, ⟨enough, agree⟩, rfl⟩
            refine ⟨Nat.succ_lt_succ enough, ?_⟩
            intro index bound
            cases index with
            | zero => simpa using first
            | succ index => simpa using agree index (Nat.le_of_succ_le_succ bound)
          · rintro ⟨enough, agree⟩
            cases items with
            | nil =>
                have atFront := agree 0 (Nat.le_refl _)
                rw [first] at atFront
                cases atFront
            | cons head rest =>
                have atFront := agree 0 (Nat.zero_le _)
                rw [first, List.getElem?_cons_zero] at atFront
                refine ⟨rest, ⟨Nat.lt_of_succ_lt_succ enough, ?_⟩, ?_⟩
                · intro index bound
                  simpa using agree (index + 1) (Nat.succ_le_succ bound)
                · rw [Option.some.inj atFront]

/-- A scan ends when its fuel reaches a gap. -/
theorem exists_scan_eq_some_iff {fuel : Nat} {source : Nat → Option Item} :
    (∃ items, scan fuel source = some items) ↔ ∃ index < fuel, source index = none := by
  induction fuel generalizing source with
  | zero => simp [scan]
  | succ fuel ih =>
      rw [scan]
      cases first : source 0 with
      | none => exact ⟨fun _ => ⟨0, Nat.succ_pos fuel, first⟩, fun _ => ⟨[], rfl⟩⟩
      | some item =>
          simp only [Option.map_eq_some_iff]
          constructor
          · rintro ⟨-, rest, ended, -⟩
            obtain ⟨index, bound, gap⟩ := ih.mp ⟨rest, ended⟩
            exact ⟨index + 1, Nat.succ_lt_succ bound, gap⟩
          · rintro ⟨index, bound, gap⟩
            cases index with
            | zero =>
                rw [first] at gap
                cases gap
            | succ index =>
                have later : ∃ other < fuel, source (other + 1) = none :=
                  ⟨index, Nat.lt_of_succ_lt_succ bound, gap⟩
                obtain ⟨rest, ended⟩ := ih.mpr later
                exact ⟨item :: rest, rest, ended, rfl⟩

/-- A scan finds an item exactly when the source has it before the first gap. -/
theorem mem_iff_of_scan {fuel : Nat} {source : Nat → Option Item} {items : List Item}
    (ended : scan fuel source = some items) {item : Item} :
    item ∈ items ↔
      ∃ index, source index = some item ∧ ∀ earlier ≤ index, source earlier ≠ none := by
  obtain ⟨-, agree⟩ := scan_eq_some_iff.mp ended
  have gap : source items.length = none := by simpa using agree items.length (Nat.le_refl _)
  constructor
  · intro member
    obtain ⟨index, bound, found⟩ := List.mem_iff_getElem.mp member
    refine ⟨index, ?_, ?_⟩
    · rw [agree index (Nat.le_of_lt bound), List.getElem?_eq_getElem bound, found]
    · intro earlier before
      have inside := Nat.lt_of_le_of_lt before bound
      rw [agree earlier (Nat.le_of_lt inside), List.getElem?_eq_getElem inside]
      exact Option.some_ne_none _
  · rintro ⟨index, found, unbroken⟩
    have before : index < items.length := by
      by_contra beyond
      exact unbroken items.length (Nat.not_lt.mp beyond) gap
    rw [agree index (Nat.le_of_lt before)] at found
    exact List.mem_of_getElem? found

end Scan
