import Mathlib.Tactic.IntervalCases
import CairoVM.Library.Failing
import CairoVM.Library.Scan
import CairoVM.Memory.Load
import CairoVM.Memory.Segments
import CairoVM.Model.PrintMemory

/-!
# What the memory dump shows

The dump is read back line by line.  It lists the cells of each segment up to the first
empty one, so a cell above a gap is missing from it, a full segment keeps it running
for ever, and from `2 ^ 31` segments on it lists no cell at all.
-/

namespace CairoVM

open Decimal Scan

/-! ## Reading a line -/

/-- Read what `%i` printed for an `unsigned int`.  From `2 ^ 31` on the number in the text
is negative, and is mapped back to the unsigned one. -/
def readUnsigned (text : List Char) : Option (UInt32 × List Char) :=
  (readInt text).map fun (value, rest) => ((Int32.ofInt value).toUInt32, rest)

/-- Read an address. -/
def readAddress (text : List Char) : Option (Relocatable × List Char) := do
  let (segmentIndex, text) ← readUnsigned text
  let text ← readLiteral ":".toList text
  let (offset, text) ← readUnsigned text
  some (⟨segmentIndex, offset⟩, text)

/-- Read the limbs of a felt. -/
def readFelt (text : List Char) : Option (FeltT × List Char) := do
  let text ← readLiteral "[".toList text
  let (first, text) ← readNat text
  let text ← readLiteral ", ".toList text
  let (second, text) ← readNat text
  let text ← readLiteral ", ".toList text
  let (third, text) ← readNat text
  let text ← readLiteral ", ".toList text
  let (fourth, text) ← readNat text
  let text ← readLiteral "]".toList text
  some (#v[UInt64.ofNat first, UInt64.ofNat second, UInt64.ofNat third,
    UInt64.ofNat fourth], text)

/-- Read the value of a cell. -/
def readValue (text : List Char) : Option (MaybeRelocatable × List Char) :=
  match readAddress text with
  | some (value, text) => some (.relocatable value, text)
  | none => (readFelt text).map fun (limbs, text) => (.felt limbs, text)

/-- Read a line of the dump as an address and a value. -/
def readCell (line : List Char) : Option (Relocatable × MaybeRelocatable) := do
  let (ptr, text) ← readAddress line
  let text ← readLiteral " : ".toList text
  let (value, text) ← readValue text
  if text = "\n".toList then some (ptr, value) else none

theorem readUnsigned_formatInt (value : UInt32) {rest : List Char}
    (ahead : NoDigitAhead rest) :
    readUnsigned (formatInt value ++ rest) = some (value, rest) := by
  simp [readUnsigned, formatInt, ahead]

theorem readAddress_format (ptr : Relocatable) {rest : List Char}
    (ahead : NoDigitAhead rest) :
    readAddress (formatInt ptr.segmentIndex ++ (":".toList ++
      (formatInt ptr.offset ++ rest))) = some (ptr, rest) := by
  rw [readAddress, readUnsigned_formatInt _ (by simp)]
  simp only [Option.bind_eq_bind, Option.bind_some, readLiteral_append,
    readUnsigned_formatInt _ ahead]

theorem readFelt_format (f : FeltT) (rest : List Char) :
    readFelt ("[".toList ++ (List.intercalate ", ".toList (f.toList.map formatUnsigned) ++
      ("]".toList ++ rest))) = some (f, rest) := by
  have limbs : f = #v[f[0], f[1], f[2], f[3]] := by
    apply Vector.ext
    intro index bound
    interval_cases index
    all_goals rfl
  have joined : List.intercalate ", ".toList (f.toList.map formatUnsigned) =
      formatUnsigned f[0] ++ (", ".toList ++ (formatUnsigned f[1] ++ (", ".toList ++
        (formatUnsigned f[2] ++ (", ".toList ++ formatUnsigned f[3]))))) := by
    conv_lhs => rw [limbs]
    simp [List.intercalate]
  have comma : ∀ (limb : UInt64) (text : List Char),
      readNat (natText limb.toNat ++ (", ".toList ++ text)) =
        some (limb.toNat, ", ".toList ++ text) :=
    fun _ _ => readNat_natText_append _ (by simp)
  have bracket : ∀ (limb : UInt64) (text : List Char),
      readNat (natText limb.toNat ++ ("]".toList ++ text)) =
        some (limb.toNat, "]".toList ++ text) :=
    fun _ _ => readNat_natText_append _ (by simp)
  rw [joined]
  simp only [readFelt, formatUnsigned, List.append_assoc, readLiteral_append, comma,
    bracket, Option.bind_eq_bind, Option.bind_some, UInt64.ofNat_toNat, ← limbs]

/-- A felt is not read as an address. -/
theorem readAddress_bracket (rest : List Char) :
    readAddress ("[".toList ++ rest) = none := by
  simp [readAddress, readUnsigned, readInt, readNat]

/-- Every cell line is read as the cell it was printed for. -/
theorem readCell_printCell (ptr : Relocatable) (value : MaybeRelocatable) :
    readCell (printCell ptr value) = some (ptr, value) := by
  cases value with
  | relocatable r =>
      have lineEnd : NoDigitAhead "\n".toList := by simp
      rw [readCell, printCell, readAddress_format _ (by simp)]
      simp only [Option.bind_eq_bind, Option.bind_some, readLiteral_append, readValue,
        readAddress_format r lineEnd, if_pos]
  | felt f =>
      have opening : " : [".toList = " : ".toList ++ "[".toList := by decide
      have closing : "]\n".toList = "]".toList ++ "\n".toList := by decide
      rw [readCell, printCell, readAddress_format _ (by simp), opening, closing]
      simp only [Option.bind_eq_bind, Option.bind_some, List.append_assoc,
        readLiteral_append, readValue, readAddress_bracket, readFelt_format,
        Option.map_some, if_pos]

/-! ## The cells that are printed -/

variable {Table : Type} [CCHashTable Table Relocatable MaybeRelocatable]

/-- The cells from an address on, by their distance from it. -/
def cellsFrom (mem : Memory Table) (ptr : Relocatable) (distance : Nat) :
    Option (Relocatable × MaybeRelocatable) :=
  (cells mem (ptr.advance distance)).map fun value => (ptr.advance distance, value)

/-- The number of iterations of the `for` loop. -/
def printedSegments (mem : Memory Table) : Nat := mem.numSegments.toInt32.toInt.toNat

/-- The cells that `print_memory` prints, in order. -/
def printedCells (fuel : Nat) (mem : Memory Table) :
    Option (List (Relocatable × MaybeRelocatable)) :=
  ((List.range (printedSegments mem)).mapM fun i =>
    scan fuel (cellsFrom mem ⟨UInt32.ofNat i, 0⟩)).map List.flatten

/-- The `while` loop is a scan. -/
theorem printCells_eq (mem : Memory Table) (fuel : Nat) (ptr : Relocatable) :
    printCells mem fuel ptr =
      (scan fuel (cellsFrom mem ptr)).map (List.map fun cell => printCell cell.1 cell.2) := by
  induction fuel generalizing ptr with
  | zero => rfl
  | succ fuel ih =>
      have shifted : (fun distance => cellsFrom mem ptr (distance + 1)) =
          cellsFrom mem { ptr with offset := ptr.offset + 1 } := by
        funext distance
        rw [cellsFrom, cellsFrom, Relocatable.advance_succ]
      rw [printCells, scan, shifted, cellsFrom, Relocatable.advance_zero, memoryGet_eq, ih]
      cases cells mem ptr with
      | none => rfl
      | some value => simp [Function.comp_def]

theorem printMemory_eq (fuel : Nat) (mem : Memory Table) :
    printMemory fuel mem = (printedCells fuel mem).map fun printed =>
      printHeader ::
        (printed.map (fun cell => printCell cell.1 cell.2) ++ [printFooter]) := by
  simp only [printMemory, printedCells, printedSegments, printCells_eq,
    Failing.mapM_map_result]
  cases (List.range mem.numSegments.toInt32.toInt.toNat).mapM fun i =>
      scan fuel (cellsFrom mem ⟨UInt32.ofNat i, 0⟩) with
  | none => rfl
  | some segments => simp [List.map_flatten]

omit [CCHashTable Table Relocatable MaybeRelocatable] in
/-- From `2 ^ 31` on the number of segments is negative as an `int`. -/
theorem printedSegments_eq (mem : Memory Table) :
    printedSegments mem =
      if mem.numSegments.toNat < 2 ^ 31 then mem.numSegments.toNat else 0 := by
  have bound := mem.numSegments.toNat_lt
  change (mem.numSegments.toBitVec.toInt).toNat = _
  rw [BitVec.toInt_eq_toNat_cond, UInt32.toNat_toBitVec]
  split <;> split <;> omega

omit [CCHashTable Table Relocatable MaybeRelocatable] in
theorem printedSegments_le (mem : Memory Table) : printedSegments mem ≤ 2 ^ 31 := by
  rw [printedSegments_eq]
  split <;> omega

/-- Every segment of the loop is scanned from its start. -/
theorem printedCells_eq_some_iff {fuel : Nat} {mem : Memory Table}
    {printed : List (Relocatable × MaybeRelocatable)} :
    printedCells fuel mem = some printed ↔
      ∃ segments : List (List (Relocatable × MaybeRelocatable)),
        segments.flatten = printed ∧ segments.length = printedSegments mem ∧
        ∀ i (inside : i < segments.length),
          scan fuel (cellsFrom mem ⟨UInt32.ofNat i, 0⟩) = some segments[i] := by
  simp only [printedCells, Option.map_eq_some_iff, Failing.mapM_eq_some_iff]
  refine exists_congr fun segments => ?_
  rw [and_comm]
  refine and_congr_right fun _ => ?_
  constructor
  · intro scanned
    have sameLength := congrArg List.length scanned
    simp only [List.length_map, List.length_range] at sameLength
    refine ⟨sameLength.symm, fun i inside => ?_⟩
    have here := congrArg (·[i]?) scanned
    simpa [inside, sameLength] using here
  · rintro ⟨sameLength, scanned⟩
    apply List.ext_getElem
    · simp [sameLength]
    · intro i _ inside
      simpa using scanned i (by simpa using inside)

theorem cellsFrom_eq_none_iff {mem : Memory Table} {ptr : Relocatable} {distance : Nat} :
    cellsFrom mem ptr distance = none ↔ cells mem (ptr.advance distance) = none := by
  simp [cellsFrom]

theorem cellsFrom_eq_some_iff {mem : Memory Table} {ptr : Relocatable} {distance : Nat}
    {cell : Relocatable × MaybeRelocatable} :
    cellsFrom mem ptr distance = some cell ↔
      ptr.advance distance = cell.1 ∧ cells mem cell.1 = some cell.2 := by
  simp only [cellsFrom, Option.map_eq_some_iff]
  constructor
  · rintro ⟨value, present, rfl⟩
    exact ⟨rfl, present⟩
  · rintro ⟨target, present⟩
    exact ⟨cell.2, target ▸ present, Prod.ext target rfl⟩

/-- From the start of a segment, the distance of a cell is its offset. -/
theorem advance_segment (segment : UInt32) (distance : Nat) :
    Relocatable.advance ⟨segment, 0⟩ distance = ⟨segment, UInt32.ofNat distance⟩ := by
  simp [Relocatable.advance]

/-- The printed cells are the occupied ones of the segments in the loop that have no
gap below. -/
theorem mem_printedCells_iff {fuel : Nat} {mem : Memory Table}
    {printed : List (Relocatable × MaybeRelocatable)}
    (ended : printedCells fuel mem = some printed) (ptr : Relocatable)
    (value : MaybeRelocatable) :
    (ptr, value) ∈ printed ↔
      ptr.segmentIndex.toNat < printedSegments mem ∧ cells mem ptr = some value ∧
        ∀ offset < ptr.offset, cells mem ⟨ptr.segmentIndex, offset⟩ ≠ none := by
  obtain ⟨segments, rfl, sameLength, scanned⟩ := printedCells_eq_some_iff.mp ended
  have limit := printedSegments_le mem
  rw [List.mem_flatten]
  constructor
  · rintro ⟨segment, segmentMember, member⟩
    obtain ⟨i, inside, rfl⟩ := List.mem_iff_getElem.mp segmentMember
    obtain ⟨distance, found, unbroken⟩ := (mem_iff_of_scan (scanned i inside)).mp member
    obtain ⟨target, present⟩ := cellsFrom_eq_some_iff.mp found
    rw [advance_segment] at target
    dsimp only at target present
    subst target
    refine ⟨?_, present, ?_⟩
    · rw [UInt32.toNat_ofNat', Nat.mod_eq_of_lt (by omega), ← sameLength]
      exact inside
    · intro offset below
      have earlier := unbroken offset.toNat ?_
      · rw [Ne, cellsFrom_eq_none_iff, advance_segment, UInt32.ofNat_toNat] at earlier
        exact earlier
      · have bound := UInt32.lt_iff_toNat_lt.mp below
        rw [UInt32.toNat_ofNat'] at bound
        have wrapped := Nat.mod_le distance (2 ^ 32)
        omega
  · rintro ⟨reached, present, unbroken⟩
    have inside : ptr.segmentIndex.toNat < segments.length := sameLength ▸ reached
    refine ⟨segments[ptr.segmentIndex.toNat], List.getElem_mem inside, ?_⟩
    refine (mem_iff_of_scan (scanned _ inside)).mpr ⟨ptr.offset.toNat, ?_, ?_⟩
    · rw [cellsFrom_eq_some_iff, advance_segment, UInt32.ofNat_toNat, UInt32.ofNat_toNat]
      exact ⟨rfl, present⟩
    · intro distance before
      rw [Ne, cellsFrom_eq_none_iff, advance_segment, UInt32.ofNat_toNat]
      rcases Nat.lt_or_eq_of_le before with below | rfl
      · have bound := ptr.offset.toNat_lt
        apply unbroken
        rw [UInt32.lt_iff_toNat_lt, UInt32.toNat_ofNat', Nat.mod_eq_of_lt (by omega)]
        exact below
      · rw [UInt32.ofNat_toNat, present]
        exact Option.some_ne_none value

/-- A scan of one segment prints fewer than `2 ^ 32` cells, because the offsets repeat
after that many. -/
theorem length_lt_of_scan {fuel : Nat} {mem : Memory Table} {segment : UInt32}
    {printed : List (Relocatable × MaybeRelocatable)}
    (ended : scan fuel (cellsFrom mem ⟨segment, 0⟩) = some printed) :
    printed.length < 2 ^ 32 := by
  obtain ⟨-, agree⟩ := scan_eq_some_iff.mp ended
  by_contra tooLong
  have gap := agree printed.length (Nat.le_refl _)
  rw [List.getElem?_eq_none (Nat.le_refl _), cellsFrom_eq_none_iff, advance_segment] at gap
  have sameOffset : UInt32.ofNat (printed.length - 2 ^ 32) = UInt32.ofNat printed.length := by
    rw [← UInt32.toNat_inj, UInt32.toNat_ofNat', UInt32.toNat_ofNat']
    omega
  have earlier := agree (printed.length - 2 ^ 32) (Nat.sub_le _ _)
  rw [List.getElem?_eq_getElem (by omega), cellsFrom_eq_some_iff, advance_segment,
    sameOffset] at earlier
  rw [← earlier.1, gap] at earlier
  cases earlier.2

/-- No cell is printed twice. -/
theorem nodup_printedCells {fuel : Nat} {mem : Memory Table}
    {printed : List (Relocatable × MaybeRelocatable)}
    (ended : printedCells fuel mem = some printed) : (printed.map Prod.fst).Nodup := by
  obtain ⟨segments, rfl, sameLength, scanned⟩ := printedCells_eq_some_iff.mp ended
  have limit := printedSegments_le mem
  have address : ∀ i (inside : i < segments.length) j (within : j < segments[i].length),
      segments[i][j].1 = ⟨UInt32.ofNat i, UInt32.ofNat j⟩ := by
    intro i inside j within
    have found := (scan_eq_some_iff.mp (scanned i inside)).2 j (Nat.le_of_lt within)
    rw [List.getElem?_eq_getElem within, cellsFrom_eq_some_iff, advance_segment] at found
    exact found.1.symm
  have index_inj : ∀ {i j : Nat}, i < 2 ^ 32 → j < 2 ^ 32 →
      UInt32.ofNat i = UInt32.ofNat j → i = j := by
    intro i j iBound jBound same
    rw [← UInt32.toNat_inj, UInt32.toNat_ofNat', UInt32.toNat_ofNat'] at same
    omega
  rw [List.Nodup, List.pairwise_map, List.pairwise_flatten]
  constructor
  · intro segment member
    obtain ⟨i, inside, rfl⟩ := List.mem_iff_getElem.mp member
    have short := length_lt_of_scan (scanned i inside)
    rw [List.pairwise_iff_getElem]
    intro j k jInside kInside before same
    rw [address i inside j jInside, address i inside k kInside,
      Relocatable.mk.injEq] at same
    have equal := index_inj (by omega) (by omega) same.2
    omega
  · rw [List.pairwise_iff_getElem]
    intro i k iInside kInside before cell cellMember other otherMember same
    obtain ⟨j, jInside, rfl⟩ := List.mem_iff_getElem.mp cellMember
    obtain ⟨l, lInside, rfl⟩ := List.mem_iff_getElem.mp otherMember
    rw [address i iInside j jInside, address k kInside l lInside,
      Relocatable.mk.injEq] at same
    have equal := index_inj (by omega) (by omega) same.1
    omega

/-- The dump ends exactly when every segment of the loop has an empty cell. -/
theorem exists_printedCells_iff {mem : Memory Table} :
    (∃ fuel printed, printedCells fuel mem = some printed) ↔
      ∀ segment : UInt32, segment.toNat < printedSegments mem →
        ∃ offset, cells mem ⟨segment, offset⟩ = none := by
  have limit := printedSegments_le mem
  constructor
  · rintro ⟨fuel, printed, ended⟩ segment reached
    obtain ⟨segments, -, sameLength, scanned⟩ := printedCells_eq_some_iff.mp ended
    obtain ⟨distance, -, gap⟩ :=
      exists_scan_eq_some_iff.mp ⟨_, scanned segment.toNat (sameLength ▸ reached)⟩
    rw [cellsFrom_eq_none_iff, advance_segment, UInt32.ofNat_toNat] at gap
    exact ⟨_, gap⟩
  · intro gaps
    have each : ∀ i : Fin (printedSegments mem), ∃ printed,
        scan (2 ^ 32) (cellsFrom mem ⟨UInt32.ofNat i, 0⟩) = some printed := by
      intro i
      have inside := i.isLt
      obtain ⟨offset, gap⟩ := gaps (UInt32.ofNat i)
        (by rw [UInt32.toNat_ofNat', Nat.mod_eq_of_lt (by omega)]; exact inside)
      refine exists_scan_eq_some_iff.mpr ⟨offset.toNat, offset.toNat_lt, ?_⟩
      rw [cellsFrom_eq_none_iff, advance_segment, UInt32.ofNat_toNat]
      exact gap
    choose printed scanned using each
    refine ⟨2 ^ 32, _, printedCells_eq_some_iff.mpr
      ⟨List.ofFn printed, rfl, List.length_ofFn, ?_⟩⟩
    intro i inside
    rw [List.getElem_ofFn]
    exact scanned ⟨i, by simpa using inside⟩

/-! ## When the dump is complete -/

/-- The dump ends, each of its lines but the first and the last is read as a cell, and
these cells are the occupied ones, each of them once. -/
def ShowsMemory (mem : Memory Table) : Prop :=
  ∃ (fuel : Nat) (lines : List (List Char)) (shown : List (Relocatable × MaybeRelocatable)),
    printMemory fuel mem = some (printHeader :: (lines ++ [printFooter])) ∧
    lines.map readCell = shown.map some ∧
    (∀ ptr value, (ptr, value) ∈ shown ↔ memoryGet mem ptr = .ok value) ∧
    (shown.map Prod.fst).Nodup

/-- Below every occupied cell the segment is occupied. -/
def NoGaps (mem : Memory Table) : Prop :=
  ∀ ptr value, memoryGet mem ptr = .ok value →
    ∀ offset < ptr.offset, ∃ lower, memoryGet mem ⟨ptr.segmentIndex, offset⟩ = .ok lower

/-- Every segment has an unoccupied cell. -/
def NoFullSegment (mem : Memory Table) : Prop :=
  ∀ segment, ∃ offset, memoryGet mem ⟨segment, offset⟩ = .error .get

/-- The dump is complete when its loop gets to every occupied cell. -/
theorem showsMemory_iff (mem : Memory Table) :
    ShowsMemory mem ↔
      (∀ ptr value, memoryGet mem ptr = .ok value →
        ptr.segmentIndex.toNat < printedSegments mem) ∧
      NoGaps mem ∧ NoFullSegment mem := by
  simp only [ShowsMemory, NoGaps, NoFullSegment, memoryGet_eq_ok_iff,
    memoryGet_eq_error_iff, and_true]
  constructor
  · rintro ⟨fuel, lines, shown, ended, read, exactly, -⟩
    rw [printMemory_eq, Option.map_eq_some_iff] at ended
    obtain ⟨printed, ended, sameLines⟩ := ended
    have linesEq : printed.map (fun cell => printCell cell.1 cell.2) = lines :=
      List.append_cancel_right (List.cons.inj sameLines).2
    have shownEq : printed = shown := by
      rw [← linesEq, List.map_map] at read
      refine List.map_injective_iff.mpr (fun _ _ => Option.some.inj) (Eq.trans ?_ read)
      exact List.map_congr_left fun cell _ => (readCell_printCell cell.1 cell.2).symm
    subst shownEq
    have member := mem_printedCells_iff ended
    simp only [exactly] at member
    refine ⟨fun ptr value present => ((member ptr value).mp present).1, ?_, ?_⟩
    · intro ptr value present offset below
      exact Option.ne_none_iff_exists'.mp (((member ptr value).mp present).2.2 offset below)
    · intro segment
      by_cases reached : segment.toNat < printedSegments mem
      · exact exists_printedCells_iff.mp ⟨fuel, printed, ended⟩ segment reached
      · refine ⟨0, ?_⟩
        by_contra occupied
        obtain ⟨value, present⟩ := Option.ne_none_iff_exists'.mp occupied
        exact reached ((member _ value).mp present).1
  · rintro ⟨reached, noGaps, noFullSegment⟩
    obtain ⟨fuel, printed, ended⟩ := exists_printedCells_iff.mpr
      fun segment _ => noFullSegment segment
    refine ⟨fuel, printed.map (fun cell => printCell cell.1 cell.2), printed, ?_, ?_, ?_,
      nodup_printedCells ended⟩
    · rw [printMemory_eq, ended]
      rfl
    · rw [List.map_map]
      exact List.map_congr_left fun cell _ => readCell_printCell cell.1 cell.2
    · intro ptr value
      rw [mem_printedCells_iff ended]
      constructor
      · exact fun found => found.2.1
      · intro present
        refine ⟨reached ptr value present, present, ?_⟩
        intro offset below
        exact Option.ne_none_iff_exists'.mpr (noGaps ptr value present offset below)

/-! ## Dumps of a run -/

variable [LawfulCCHashTable Table memoryConf]

omit [LawfulCCHashTable Table memoryConf] in
/-- Without a wrap of the segment counter, the loop gets to the occupied cells exactly
when the number of segments is an `int`, or there is no such cell. -/
theorem printedSegments_reached_iff {created : Nat} {mem : Memory Table}
    (within : Within created mem) (noWrap : created < 2 ^ 32) :
    (∀ ptr value, memoryGet mem ptr = .ok value →
      ptr.segmentIndex.toNat < printedSegments mem) ↔
      created < 2 ^ 31 ∨ ∀ ptr, memoryGet mem ptr = .error .get := by
  simp only [memoryGet_eq_ok_iff, memoryGet_eq_error_iff, and_true]
  rw [printedSegments_eq, within.toNat_numSegments noWrap]
  constructor
  · intro reached
    by_cases isInt : created < 2 ^ 31
    · exact Or.inl isInt
    · right
      intro ptr
      by_contra occupied
      obtain ⟨value, present⟩ := Option.ne_none_iff_exists'.mp occupied
      have impossible := reached ptr value present
      rw [if_neg isInt] at impossible
      exact Nat.not_lt_zero _ impossible
  · rintro (isInt | empty) ptr value present
    · rw [if_pos isInt]
      exact within.bounded ptr value present
    · rw [empty ptr] at present
      cases present

/-- For every memory that a run leads to without a wrap of the segment counter: the
dump is complete exactly when the number of segments is an `int` or no cell is
occupied, no segment has a gap, and no segment is full. -/
theorem printMemory_complete_iff (ops : List (MemoryOp Values))
    (noWrap : segmentsAdded ops < 2 ^ 32) :
    ShowsMemory (memoryRun Table ops) ↔
      (segmentsAdded ops < 2 ^ 31 ∨
        ∀ ptr, memoryGet (memoryRun Table ops) ptr = .error .get) ∧
      NoGaps (memoryRun Table ops) ∧ NoFullSegment (memoryRun Table ops) := by
  rw [showsMemory_iff, printedSegments_reached_iff (within_memoryRun ops) noWrap]

/-- The cells of a run that only loads some data into its first segment. -/
theorem memoryGet_load_first {data : Values}
    (fits : data.length ≤ 2 ^ 32) {ptr : Relocatable} {value : MaybeRelocatable} :
    memoryGet (memoryRun Table [.addSegment, .loadData ⟨0, 0⟩ data]) ptr = .ok value ↔
      ptr.segmentIndex = 0 ∧ data[ptr.offset.toNat]? = some value := by
  have empty : cells (memoryRun Table [.addSegment]) = fun _ => none := cells_memoryNew
  have loaded : ∃ endPtr,
      (memoryLoadData (memoryRun Table [.addSegment]) ⟨0, 0⟩ data).1 = .ok endPtr := by
    have created : (0 : UInt32) < (memoryRun Table [.addSegment]).numSegments := by
      change (0 : UInt32) < 0 + 1
      decide
    rw [memoryLoadData_segment_ok_iff fits created]
    intro offset value held _ present
    rw [empty] at present
    cases present
  rw [memoryGet_eq_ok_iff]
  change cells (memoryLoadData (memoryRun Table [.addSegment]) ⟨0, 0⟩ data).2 ptr = _ ↔ _
  rw [cells_memoryLoadData_segment fits loaded, empty]
  simp

/-- A program segment of two words is shown in full. -/
theorem printMemory_complete_two_words :
    ShowsMemory (memoryRun CellTable
      [.addSegment, .loadData ⟨0, 0⟩ [.felt #v[0, 0, 0, 5], .relocatable ⟨0, 0⟩]]) := by
  refine (printMemory_complete_iff _ (by decide)).mpr ⟨Or.inl (by decide), ?_, ?_⟩
  · intro ptr value present offset below
    obtain ⟨inFirst, found⟩ := (memoryGet_load_first (by decide)).mp present
    obtain ⟨bound, -⟩ := List.getElem?_eq_some_iff.mp found
    have inside := Nat.lt_trans (UInt32.lt_iff_toNat_lt.mp below) bound
    exact ⟨_, (memoryGet_load_first (by decide)).mpr
      ⟨inFirst, List.getElem?_eq_getElem inside⟩⟩
  · intro segment
    refine ⟨2, memoryGet_eq_error_iff.mpr ⟨?_, rfl⟩⟩
    by_contra occupied
    obtain ⟨value, present⟩ := Option.ne_none_iff_exists'.mp occupied
    cases ((memoryGet_load_first (by decide)).mp (memoryGet_eq_ok_iff.mpr present)).2

/-- A cell above a gap is missing from the dump. -/
theorem printMemory_complete_fails_at_gap :
    ¬∀ ops : List (MemoryOp Values), segmentsAdded ops < 2 ^ 32 →
      ShowsMemory (memoryRun CellTable ops) := by
  intro complete
  have shows := complete [.addSegment, .insert ⟨0, 1⟩ (.felt #v[0, 0, 0, 5])] (by decide)
  have noGaps := ((showsMemory_iff _).mp shows).2.1
  obtain ⟨lower, present⟩ := noGaps ⟨0, 1⟩ (.felt #v[0, 0, 0, 5]) rfl 0 (by decide)
  cases present

end CairoVM
