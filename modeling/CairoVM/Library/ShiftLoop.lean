import Mathlib.Algebra.BigOperators.Fin
import Mathlib.Data.List.FinRange
import Mathlib.Tactic.Ring

/-!
# Loops that or in a byte and then shift

A loop runs over the indices of some bytes, from the last one down.  Each iteration
ors its byte into an accumulator of a fixed width and then shifts the accumulator by
eight times its index.  A byte is therefore shifted by its own iteration and by all
that follow, so byte `i` ends up at bit `8 * (0 + 1 + ... + i)`, or beyond the width.
-/

namespace ShiftLoop

/-- The sum of the shifts of the iterations below an index. -/
def shiftBelow : Nat → Nat
  | 0 => 0
  | index + 1 => shiftBelow index + 8 * index

theorem shiftBelow_succ_eq (index : Nat) :
    shiftBelow (index + 1) = 4 * (index * (index + 1)) := by
  induction index with
  | zero => rfl
  | succ index ih =>
      rw [shiftBelow, ih]
      ring

variable {bits : Nat}

/-- One iteration. -/
def orThenShift (value : BitVec bits) (byte index : Nat) : BitVec bits :=
  (value ||| BitVec.ofNat bits byte) <<< (8 * index)

/-- The loop, from the last index down. -/
def loop {count : Nat} (byte : Fin count → Nat) (start : BitVec bits) : BitVec bits :=
  (List.finRange count).reverse.foldl (fun value i => orThenShift value (byte i) i.val)
    start

theorem loop_succ {count : Nat} (byte : Fin (count + 1) → Nat) (start : BitVec bits) :
    loop byte start =
      loop (fun i => byte i.castSucc) (orThenShift start (byte (Fin.last count)) count) := by
  simp only [loop, List.finRange_succ_last, List.reverse_concat, ← List.map_reverse,
    List.foldl_cons, List.foldl_map, Fin.val_last, Fin.val_castSucc]

/-- An iteration adds its byte when the accumulator has room for it. -/
theorem toNat_orThenShift (wide : 8 ≤ bits) {value : BitVec bits} {byte : Nat}
    (aligned : 2 ^ 8 ∣ value.toNat) (small : byte < 2 ^ 8) (index : Nat) :
    (orThenShift value byte index).toNat =
      (value.toNat + byte) * 2 ^ (8 * index) % 2 ^ bits := by
  have fits : byte < 2 ^ bits :=
    Nat.lt_of_lt_of_le small (Nat.pow_le_pow_right (by decide) wide)
  obtain ⟨high, split⟩ := aligned
  have disjoint : value.toNat ||| byte = value.toNat + byte := by
    rw [split, ← Nat.two_pow_add_eq_or_of_lt small]
  rw [orThenShift, BitVec.toNat_shiftLeft, BitVec.toNat_or, BitVec.toNat_ofNat,
    Nat.mod_eq_of_lt fits, disjoint, Nat.shiftLeft_eq]

/-- The invariant of the loop: what is still to come shifts the accumulator by the sum
of the remaining shifts and adds every remaining byte at its own place. -/
theorem toNat_loop (wide : 8 ≤ bits) {count : Nat} (byte : Fin count → Nat)
    (small : ∀ i, byte i < 2 ^ 8) (start : BitVec bits)
    (aligned : count = 0 ∨ 2 ^ 8 ∣ start.toNat) :
    (loop byte start).toNat =
      (start.toNat * 2 ^ shiftBelow count +
        ∑ i, byte i * 2 ^ shiftBelow (i.val + 1)) % 2 ^ bits := by
  induction count generalizing start with
  | zero => simp [loop, shiftBelow, Nat.mod_eq_of_lt start.isLt]
  | succ count ih =>
      have now := toNat_orThenShift wide (aligned.resolve_left (Nat.succ_ne_zero count))
        (small (Fin.last count)) count
      have stillAligned : count = 0 ∨
          2 ^ 8 ∣ (orThenShift start (byte (Fin.last count)) count).toNat := by
        rcases Nat.eq_zero_or_pos count with zero | positive
        · exact Or.inl zero
        · right
          rw [now, Nat.dvd_mod_iff (Nat.pow_dvd_pow 2 wide)]
          exact Dvd.dvd.mul_left (Nat.pow_dvd_pow 2 (by omega)) _
      rw [loop_succ, ih _ (fun i => small i.castSucc) _ stillAligned, now,
        Fin.sum_univ_castSucc, Nat.add_mod, Nat.mod_mul_mod, ← Nat.add_mod]
      congr 1
      simp only [Fin.val_castSucc, Fin.val_last, shiftBelow, Nat.pow_add]
      ring

/-- The loop from an empty accumulator places every byte. -/
theorem toNat_loop_zero (wide : 8 ≤ bits) {count : Nat} (byte : Fin count → Nat)
    (small : ∀ i, byte i < 2 ^ 8) :
    (loop byte (0 : BitVec bits)).toNat =
      (∑ i, byte i * 2 ^ shiftBelow (i.val + 1)) % 2 ^ bits := by
  rw [toNat_loop wide byte small 0 (Or.inr (by simp))]
  simp

end ShiftLoop
