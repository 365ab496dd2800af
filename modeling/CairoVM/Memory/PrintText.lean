import Mathlib.Data.List.Nodup
import CairoVM.Library.Lines
import CairoVM.Memory.Print

/-!
# The text of the memory dump

The dump is a stream of characters, without marks between its lines.  The stream still
determines the cells that it shows, and it is determined by them: neither the table nor
the history of the memory can be seen in it.
-/

namespace CairoVM

open Decimal Lines

/-! ## Lines -/

theorem newline_notMem_natText (value : Nat) : '\n' ∉ natText value := by
  intro member
  exact absurd (isDigit_of_mem_natText member) (by decide)

theorem newline_notMem_formatInt (value : UInt32) : '\n' ∉ formatInt value := by
  unfold formatInt intText
  split
  · rw [List.mem_cons]
    rintro (isMinus | member)
    · exact absurd isMinus (by decide)
    · exact newline_notMem_natText _ member
  · exact newline_notMem_natText _

theorem isLine_printCell (ptr : Relocatable) (value : MaybeRelocatable) :
    IsLine (printCell ptr value) := by
  have colon : '\n' ∉ ":".toList := by decide
  have separator : '\n' ∉ " : ".toList := by decide
  have opening : '\n' ∉ " : [".toList := by decide
  have comma : '\n' ∉ ", ".toList := by decide
  have closing : "]\n".toList = "]".toList ++ "\n".toList := by decide
  have bracket : '\n' ∉ "]".toList := by decide
  cases value with
  | relocatable r =>
      refine ⟨formatInt ptr.segmentIndex ++ (":".toList ++ (formatInt ptr.offset ++
        (" : ".toList ++ (formatInt r.segmentIndex ++ (":".toList ++
          formatInt r.offset))))), ?_, ?_⟩
      · simp [printCell]
      · simp only [List.mem_append, newline_notMem_formatInt, colon, separator, or_self,
          not_false_iff]
  | felt f =>
      have limbs : '\n' ∉ List.intercalate ", ".toList (f.toList.map formatUnsigned) := by
        refine notMem_intercalate comma fun text member => ?_
        obtain ⟨limb, -, rfl⟩ := List.mem_map.mp member
        exact newline_notMem_natText limb.toNat
      refine ⟨formatInt ptr.segmentIndex ++ (":".toList ++ (formatInt ptr.offset ++
        (" : [".toList ++ (List.intercalate ", ".toList (f.toList.map formatUnsigned) ++
          "]".toList)))), ?_, ?_⟩
      · simp [printCell, closing]
      · simp only [List.mem_append, newline_notMem_formatInt, colon, opening, bracket,
          limbs, or_self, not_false_iff]

theorem printCell_injective :
    Function.Injective fun cell : Relocatable × MaybeRelocatable =>
      printCell cell.1 cell.2 := by
  intro first second same
  have read := readCell_printCell first.1 first.2
  simp only at same
  rw [same, readCell_printCell] at read
  exact (Option.some.inj read).symm

variable {Table : Type} [CCHashTable Table Relocatable MaybeRelocatable]

/-! ## The order of the cells -/

/-- The place of an address in the dump. -/
def Relocatable.position (ptr : Relocatable) : Nat :=
  ptr.segmentIndex.toNat * 2 ^ 32 + ptr.offset.toNat

/-- A scan visits the addresses of its segment in order. -/
theorem scan_address {fuel : Nat} {mem : Memory Table} {segment : UInt32}
    {printed : List (Relocatable × MaybeRelocatable)}
    (ended : Scan.scan fuel (cellsFrom mem ⟨segment, 0⟩) = some printed) {index : Nat}
    (inside : index < printed.length) :
    printed[index].1 = ⟨segment, UInt32.ofNat index⟩ := by
  have found := (Scan.scan_eq_some_iff.mp ended).2 index (Nat.le_of_lt inside)
  rw [List.getElem?_eq_getElem inside, cellsFrom_eq_some_iff, advance_segment] at found
  exact found.1.symm

theorem position_scan {fuel : Nat} {mem : Memory Table} {segment : UInt32}
    {printed : List (Relocatable × MaybeRelocatable)}
    (ended : Scan.scan fuel (cellsFrom mem ⟨segment, 0⟩) = some printed) {index : Nat}
    (inside : index < printed.length) :
    printed[index].1.position = segment.toNat * 2 ^ 32 + index := by
  have short := length_lt_of_scan ended
  rw [scan_address ended inside, Relocatable.position, UInt32.toNat_ofNat',
    Nat.mod_eq_of_lt (by omega)]

/-- The dump lists the cells in the order of their addresses. -/
theorem pairwise_printedCells {fuel : Nat} {mem : Memory Table}
    {printed : List (Relocatable × MaybeRelocatable)}
    (ended : printedCells fuel mem = some printed) :
    printed.Pairwise fun first second => first.1.position < second.1.position := by
  obtain ⟨segments, rfl, sameLength, scanned⟩ := printedCells_eq_some_iff.mp ended
  have limit := printedSegments_le mem
  have position : ∀ i (inside : i < segments.length) j (within : j < segments[i].length),
      segments[i][j].1.position = i * 2 ^ 32 + j := by
    intro i inside j within
    rw [position_scan (scanned i inside) within, UInt32.toNat_ofNat',
      Nat.mod_eq_of_lt (by omega)]
  rw [List.pairwise_flatten]
  constructor
  · intro segment member
    obtain ⟨i, inside, rfl⟩ := List.mem_iff_getElem.mp member
    rw [List.pairwise_iff_getElem]
    intro j k jInside kInside before
    rw [position i inside j jInside, position i inside k kInside]
    omega
  · rw [List.pairwise_iff_getElem]
    intro i k iInside kInside before cell cellMember other otherMember
    obtain ⟨j, jInside, rfl⟩ := List.mem_iff_getElem.mp cellMember
    obtain ⟨l, lInside, rfl⟩ := List.mem_iff_getElem.mp otherMember
    have short := length_lt_of_scan (scanned i iInside)
    rw [position i iInside j jInside, position k kInside l lInside]
    omega

/-- Dumps with the same cells list them in the same order. -/
theorem printedCells_eq_of_mem_iff {Other : Type}
    [CCHashTable Other Relocatable MaybeRelocatable] {fuel otherFuel : Nat}
    {mem : Memory Table} {other : Memory Other}
    {printed otherPrinted : List (Relocatable × MaybeRelocatable)}
    (ended : printedCells fuel mem = some printed)
    (otherEnded : printedCells otherFuel other = some otherPrinted)
    (same : ∀ cell, cell ∈ printed ↔ cell ∈ otherPrinted) : printed = otherPrinted := by
  have distinct := (nodup_printedCells ended).of_map
  have otherDistinct := (nodup_printedCells otherEnded).of_map
  have reordered := (List.perm_ext_iff_of_nodup distinct otherDistinct).mpr same
  refine reordered.eq_of_pairwise ?_ (pairwise_printedCells ended)
    (pairwise_printedCells otherEnded)
  intro first second _ _ before after
  omega

/-! ## What the text tells -/

/-- The dump shows a cell: its loop gets to the segment, and there is no gap below. -/
def Shown (mem : Memory Table) (ptr : Relocatable) (value : MaybeRelocatable) : Prop :=
  ptr.segmentIndex.toNat < printedSegments mem ∧ memoryGet mem ptr = .ok value ∧
    ∀ offset < ptr.offset, ∃ lower, memoryGet mem ⟨ptr.segmentIndex, offset⟩ = .ok lower

theorem mem_printedCells_iff_shown {fuel : Nat} {mem : Memory Table}
    {printed : List (Relocatable × MaybeRelocatable)}
    (ended : printedCells fuel mem = some printed) (cell : Relocatable × MaybeRelocatable) :
    cell ∈ printed ↔ Shown mem cell.1 cell.2 := by
  rw [Shown, mem_printedCells_iff ended cell.1 cell.2]
  simp only [memoryGet_eq_ok_iff, Option.ne_none_iff_exists']

/-- Two dumps that end are the same text exactly when they show the same cells. -/
theorem printMemory_text_eq_iff {Other : Type}
    [CCHashTable Other Relocatable MaybeRelocatable] {fuel otherFuel : Nat}
    {mem : Memory Table} {other : Memory Other} {lines otherLines : List (List Char)}
    (ended : printMemory fuel mem = some lines)
    (otherEnded : printMemory otherFuel other = some otherLines) :
    lines.flatten = otherLines.flatten ↔
      ∀ ptr value, Shown mem ptr value ↔ Shown other ptr value := by
  rw [printMemory_eq, Option.map_eq_some_iff] at ended otherEnded
  obtain ⟨printed, ended, rfl⟩ := ended
  obtain ⟨otherPrinted, otherEnded, rfl⟩ := otherEnded
  have member := mem_printedCells_iff_shown ended
  have otherMember := mem_printedCells_iff_shown otherEnded
  have areLines : ∀ cells : List (Relocatable × MaybeRelocatable),
      ∀ line ∈ cells.map fun cell => printCell cell.1 cell.2, IsLine line := by
    intro cells line isPrinted
    obtain ⟨cell, -, rfl⟩ := List.mem_map.mp isPrinted
    exact isLine_printCell cell.1 cell.2
  constructor
  · intro sameText ptr value
    rw [List.flatten_cons, List.flatten_cons, List.append_cancel_left_eq,
      List.flatten_append, List.flatten_append, List.append_cancel_right_eq] at sameText
    have sameLines := flatten_injective (areLines printed) (areLines otherPrinted) sameText
    have sameCells := List.map_injective_iff.mpr printCell_injective sameLines
    rw [← member (ptr, value), ← otherMember (ptr, value), sameCells]
  · intro sameShown
    have sameCells := printedCells_eq_of_mem_iff ended otherEnded fun cell => by
      rw [member, otherMember, sameShown]
    rw [sameCells]

/-- A cell above a gap leaves no trace in the text. -/
theorem printMemory_text_eq_above_gap :
    (∀ ptr value,
      Shown (memoryRun CellTable [.addSegment, .insert ⟨0, 0⟩ (.relocatable ⟨1, 1⟩),
        .insert ⟨0, 2⟩ (.relocatable ⟨3, 3⟩)]) ptr value ↔
      Shown (memoryRun CellTable [.addSegment, .insert ⟨0, 0⟩ (.relocatable ⟨1, 1⟩)])
        ptr value) ∧
    memoryGet (memoryRun CellTable [.addSegment, .insert ⟨0, 0⟩ (.relocatable ⟨1, 1⟩),
      .insert ⟨0, 2⟩ (.relocatable ⟨3, 3⟩)]) ⟨0, 2⟩ = .ok (.relocatable ⟨3, 3⟩) := by
  have ended : printMemory 2 (memoryRun CellTable [.addSegment,
      .insert ⟨0, 0⟩ (.relocatable ⟨1, 1⟩), .insert ⟨0, 2⟩ (.relocatable ⟨3, 3⟩)]) =
      some [printHeader, printCell ⟨0, 0⟩ (.relocatable ⟨1, 1⟩), printFooter] := rfl
  have otherEnded : printMemory 2 (memoryRun CellTable [.addSegment,
      .insert ⟨0, 0⟩ (.relocatable ⟨1, 1⟩)]) =
      some [printHeader, printCell ⟨0, 0⟩ (.relocatable ⟨1, 1⟩), printFooter] := rfl
  exact ⟨(printMemory_text_eq_iff ended otherEnded).mp rfl, rfl⟩

end CairoVM
