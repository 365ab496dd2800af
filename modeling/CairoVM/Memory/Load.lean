import Mathlib.Data.Nat.Find
import CairoVM.Memory.History

/-!
# Loading data

`memory_load_data` writes its elements one after another and returns at the first
rejected insert, without undoing what it has written.  This module describes both
outcomes: where a successful load leaves its data, and which prefix a failed load
leaves behind.
-/

namespace CairoVM

open WriteOnce

/-- The offset of an advanced pointer wraps at `2 ^ 32`. -/
theorem Relocatable.toNat_offset_advance (ptr : Relocatable) (count : Nat) :
    (ptr.advance count).offset.toNat = (ptr.offset.toNat + count) % 2 ^ 32 := by
  rw [advance, UInt32.toNat_add, UInt32.toNat_ofNat', Nat.add_mod_mod]

theorem Relocatable.toNat_offset_advance_of_lt {ptr : Relocatable} {count : Nat}
    (noWrap : ptr.offset.toNat + count < 2 ^ 32) :
    (ptr.advance count).offset.toNat = ptr.offset.toNat + count := by
  rw [toNat_offset_advance, Nat.mod_eq_of_lt noWrap]

@[simp] theorem Relocatable.segmentIndex_advance (ptr : Relocatable) (count : Nat) :
    (ptr.advance count).segmentIndex = ptr.segmentIndex := rfl

theorem loadWrites_take (ptr : Relocatable) (data : Values)
    (count : Nat) :
    (loadWrites ptr data).take count = loadWrites ptr (data.take count) := by
  induction data generalizing ptr count with
  | nil => simp [loadWrites]
  | cons value rest ih =>
      cases count with
      | zero => simp [loadWrites]
      | succ count => simp [loadWrites, ih]

variable {Table : Type} [CCHashTable Table Relocatable MaybeRelocatable]

/-- Element `index` of the data targets a cell that already holds another value,
from before the load or from an earlier element of it. -/
def LoadConflict (mem : Memory Table) (ptr : Relocatable)
    (data : Values) (index : Nat) : Prop :=
  ∃ value, data[index]? = some value ∧
    ((∃ held, memoryGet mem (ptr.advance index) = .ok held ∧ held ≠ value) ∨
      ∃ earlier other, earlier < index ∧ ptr.advance earlier = ptr.advance index ∧
        data[earlier]? = some other ∧ other ≠ value)

/-- A load is blocked at an index by a missing segment or by a conflict. -/
theorem blockedAt_loadWrites_iff {mem : Memory Table} {ptr : Relocatable}
    {data : Values} {index : Nat} :
    BlockedAt (Created mem.numSegments) (cells mem) (loadWrites ptr data) index ↔
      (index < data.length ∧ ptr.segmentIndex ≥ mem.numSegments) ∨
        LoadConflict mem ptr data index := by
  simp only [BlockedAt, LoadConflict, getElem?_loadWrites, Option.map_eq_some_iff,
    loadWrites_take, memoryGet_eq_ok_iff]
  constructor
  · rintro ⟨write, ⟨value, found, rfl⟩, outside | held | ⟨earlier, member, same, different⟩⟩
    · left
      exact ⟨(List.getElem?_eq_some_iff.mp found).1, UInt32.not_lt.mp outside⟩
    · right
      exact ⟨value, found, Or.inl held⟩
    · right
      obtain ⟨position, target, stored⟩ := mem_loadWrites_iff.mp member
      rw [List.getElem?_take] at stored
      split at stored
      · rename_i before
        exact ⟨value, found, Or.inr
          ⟨position, earlier.2, before, target.trans same, stored, different⟩⟩
      · cases stored
  · rintro (⟨bound, outside⟩ | ⟨value, found, held | conflict⟩)
    · exact ⟨_, ⟨data[index], List.getElem?_eq_getElem bound, rfl⟩,
        Or.inl (UInt32.not_lt.mpr outside)⟩
    · exact ⟨_, ⟨value, found, rfl⟩, Or.inr (Or.inl held)⟩
    · obtain ⟨position, other, before, target, stored, different⟩ := conflict
      refine ⟨_, ⟨value, found, rfl⟩, Or.inr (Or.inr
        ⟨(ptr.advance position, other), ?_, target, different⟩)⟩
      exact mem_loadWrites_iff.mpr
        ⟨position, rfl, by rw [List.getElem?_take_of_lt before, stored]⟩

variable [LawfulCCHashTable Table memoryConf]

/-- The only error of a load is its own. -/
theorem exists_memoryLoadData_error_iff {mem : Memory Table} {ptr : Relocatable}
    {data : Values} :
    (∃ error, (memoryLoadData mem ptr data).1 = .error error) ↔
      (memoryLoadData mem ptr data).1 = .error .loadData := by
  rw [(memoryLoadData_refines mem ptr data).1]
  split <;> simp

/-- A load fails exactly when it has data and its segment is missing or some element
is in conflict. -/
theorem memoryLoadData_error_iff {mem : Memory Table} {ptr : Relocatable}
    {data : Values} :
    (memoryLoadData mem ptr data).1 = .error .loadData ↔
      data ≠ [] ∧ (ptr.segmentIndex ≥ mem.numSegments ∨
        ∃ index, LoadConflict mem ptr data index) := by
  have verdict : (memoryLoadData mem ptr data).1 = .error .loadData ↔
      ∃ index, BlockedAt (Created mem.numSegments) (cells mem)
        (loadWrites ptr data) index := by
    rw [(memoryLoadData_refines mem ptr data).1, ← not_iff_not, not_exists,
      ← attempt_fst_iff_not_blockedAt]
    split <;> simp_all
  rw [verdict]
  simp only [blockedAt_loadWrites_iff, exists_or]
  constructor
  · rintro (⟨index, bound, outside⟩ | ⟨index, conflict⟩)
    · exact ⟨List.ne_nil_of_length_pos (Nat.zero_lt_of_lt bound), Or.inl outside⟩
    · refine ⟨?_, Or.inr ⟨index, conflict⟩⟩
      rintro rfl
      obtain ⟨value, found, -⟩ := conflict
      cases found
  · rintro ⟨nonempty, outside | conflict⟩
    · exact Or.inl ⟨0, List.length_pos_iff.mpr nonempty, outside⟩
    · exact Or.inr conflict

/-! ## Successful loads -/

/-- What a successful load has stored, and where its end pointer is. -/
theorem memoryLoadData_of_ok {mem after : Memory Table} {ptr endPtr : Relocatable}
    {data : Values}
    (loaded : memoryLoadData mem ptr data = (.ok endPtr, after)) :
    endPtr = ptr.advance data.length ∧ after.numSegments = mem.numSegments ∧
      ∀ address value, memoryGet after address = .ok value ↔
        memoryGet mem address = .ok value ∨
          ∃ index, ptr.advance index = address ∧ data[index]? = some value := by
  have ok : (memoryLoadData mem ptr data).1 = .ok endPtr := by rw [loaded]
  obtain ⟨atEnd, created, consistent⟩ := memoryLoadData_ok_iff.mp ok
  have accepted := (attempt_fst_iff _ _ _).mpr ⟨created, consistent⟩
  obtain ⟨-, stored, same⟩ := memoryLoadData_refines mem ptr data
  rw [loaded] at stored same
  refine ⟨atEnd, same, fun address value => ?_⟩
  rw [memoryGet_eq_ok_iff, memoryGet_eq_ok_iff, stored,
    attempt_snd_of_accepted _ accepted, consistent.putAll_eq_some_iff,
    mem_loadWrites_iff]

/-! ### Loads at the start of a segment

Loads of at most `2 ^ 32` elements at offset 0 never write a cell twice, so the
offset of a cell determines the element it receives. -/

omit [CCHashTable Table Relocatable MaybeRelocatable]
  [LawfulCCHashTable Table memoryConf] in
theorem mem_loadWrites_segment_iff {segment : UInt32}
    {data : Values} (fits : data.length ≤ 2 ^ 32)
    {address : Relocatable} {value : MaybeRelocatable} :
    (address, value) ∈ loadWrites ⟨segment, 0⟩ data ↔
      address.segmentIndex = segment ∧ data[address.offset.toNat]? = some value := by
  rw [mem_loadWrites_iff]
  constructor
  · rintro ⟨index, rfl, found⟩
    have bound := (List.getElem?_eq_some_iff.mp found).1
    refine ⟨rfl, ?_⟩
    rw [Relocatable.toNat_offset_advance, UInt32.toNat_zero, Nat.zero_add,
      Nat.mod_eq_of_lt (by omega)]
    exact found
  · rintro ⟨rfl, found⟩
    refine ⟨address.offset.toNat, ?_, found⟩
    rw [Relocatable.advance, UInt32.ofNat_toNat, UInt32.zero_add]

/-- Such a load succeeds exactly when no cell of the segment contradicts the data. -/
theorem memoryLoadData_segment_ok_iff {mem : Memory Table} {segment : UInt32}
    {data : Values} (fits : data.length ≤ 2 ^ 32)
    (created : segment < mem.numSegments) :
    (∃ endPtr, (memoryLoadData mem ⟨segment, 0⟩ data).1 = .ok endPtr) ↔
      ∀ offset value held, data[UInt32.toNat offset]? = some value →
        cells mem ⟨segment, offset⟩ = some held → held = value := by
  simp only [memoryLoadData_ok_iff, exists_eq_left]
  constructor
  · rintro ⟨-, consistent⟩ offset value held found present
    exact consistent.agrees (⟨segment, offset⟩, value)
      ((mem_loadWrites_segment_iff fits).mpr ⟨rfl, found⟩) held present
  · intro agree
    refine ⟨?_, ?_, ?_⟩
    · rintro ⟨address, value⟩ member
      rw [Created, ((mem_loadWrites_segment_iff fits).mp member).1]
      exact created
    · rintro ⟨⟨_, offset⟩, value⟩ member held present
      obtain ⟨rfl, found⟩ := (mem_loadWrites_segment_iff fits).mp member
      exact agree offset value held found present
    · rintro ⟨address, value⟩ member ⟨other, value'⟩ member' rfl
      have found := ((mem_loadWrites_segment_iff fits).mp member).2
      have found' := ((mem_loadWrites_segment_iff fits).mp member').2
      exact Option.some.inj (found.symm.trans found')

/-- After such a load the segment holds the data over what it held before. -/
theorem cells_memoryLoadData_segment {mem : Memory Table} {segment : UInt32}
    {data : Values} (fits : data.length ≤ 2 ^ 32)
    (ok : ∃ endPtr, (memoryLoadData mem ⟨segment, 0⟩ data).1 = .ok endPtr)
    (address : Relocatable) (value : MaybeRelocatable) :
    cells (memoryLoadData mem ⟨segment, 0⟩ data).2 address = some value ↔
      cells mem address = some value ∨
        (address.segmentIndex = segment ∧
          data[address.offset.toNat]? = some value) := by
  obtain ⟨endPtr, returned⟩ := ok
  obtain ⟨-, accepted⟩ := memoryLoadData_ok_iff.mp returned
  rw [cells_memoryLoadData,
    attempt_snd_of_accepted _ ((attempt_fst_iff _ _ _).mpr accepted),
    accepted.2.putAll_eq_some_iff, mem_loadWrites_segment_iff fits]

/-! ### Contiguous layout -/

/-- The data lies contiguously from the start pointer, with offsets added as
integers, every other address reads as before, and the end pointer is the address
after the data. -/
structure LaidOut (mem after : Memory Table) (ptr endPtr : Relocatable)
    (data : Values) : Prop where
  placed : ∀ index value, data[index]? = some value →
    ∃ address : Relocatable, address.segmentIndex = ptr.segmentIndex ∧
      address.offset.toNat = ptr.offset.toNat + index ∧
      memoryGet after address = .ok value
  frame : ∀ address : Relocatable,
    address.segmentIndex ≠ ptr.segmentIndex ∨
      address.offset.toNat < ptr.offset.toNat ∨
      ptr.offset.toNat + data.length ≤ address.offset.toNat →
    memoryGet after address = memoryGet mem address
  endSegment : endPtr.segmentIndex = ptr.segmentIndex
  endOffset : endPtr.offset.toNat = ptr.offset.toNat + data.length

/-- A successful load lays its data out contiguously exactly when the end of the
data is still an offset. -/
theorem laidOut_iff_of_ok {mem after : Memory Table} {ptr endPtr : Relocatable}
    {data : Values}
    (loaded : memoryLoadData mem ptr data = (.ok endPtr, after)) :
    LaidOut mem after ptr endPtr data ↔
      ptr.offset.toNat + data.length < 2 ^ 32 := by
  obtain ⟨atEnd, -, stored⟩ := memoryLoadData_of_ok loaded
  constructor
  · intro laidOut
    rw [← laidOut.endOffset]
    exact endPtr.offset.toNat_lt
  · intro noWrap
    have inRange : ∀ {index : Nat} {value : MaybeRelocatable},
        data[index]? = some value →
          (ptr.advance index).offset.toNat = ptr.offset.toNat + index ∧
            index < data.length := by
      intro index value found
      have bound := (List.getElem?_eq_some_iff.mp found).1
      exact ⟨Relocatable.toNat_offset_advance_of_lt (by omega), bound⟩
    refine ⟨?_, ?_, ?_, ?_⟩
    · intro index value found
      exact ⟨ptr.advance index, rfl, (inRange found).1,
        (stored _ _).mpr (Or.inr ⟨index, rfl, found⟩)⟩
    · intro address outside
      apply memoryGet_congr
      apply Option.ext
      intro value
      rw [← memoryGet_eq_ok_iff, ← memoryGet_eq_ok_iff, stored]
      refine or_iff_left ?_
      rintro ⟨index, rfl, found⟩
      obtain ⟨offset, bound⟩ := inRange found
      rw [offset] at outside
      rcases outside with otherSegment | below | beyond
      · exact otherSegment rfl
      · omega
      · omega
    · rw [atEnd, Relocatable.segmentIndex_advance]
    · rw [atEnd, Relocatable.toNat_offset_advance_of_lt noWrap]

/-- For any memory and any load: if it succeeds then its data is laid out
contiguously, exactly when the end of the data is still an offset or the load is one
that fails. -/
theorem memoryLoadData_contiguous_iff (mem : Memory Table) (ptr : Relocatable)
    (data : Values) :
    (∀ endPtr after, memoryLoadData mem ptr data = (.ok endPtr, after) →
      LaidOut mem after ptr endPtr data) ↔
    ptr.offset.toNat + data.length < 2 ^ 32 ∨
      (data ≠ [] ∧ (ptr.segmentIndex ≥ mem.numSegments ∨
        ∃ index, LoadConflict mem ptr data index)) := by
  rw [← memoryLoadData_error_iff]
  rcases outcome : memoryLoadData mem ptr data with ⟨error | endPtr, after⟩
  · have onlyError :=
      exists_memoryLoadData_error_iff.mp ⟨error, congrArg Prod.fst outcome⟩
    rw [outcome] at onlyError
    simp [Except.error.inj onlyError]
  · simp only [Prod.mk.injEq, Except.ok.injEq, reduceCtorEq, or_false]
    rw [← laidOut_iff_of_ok outcome]
    constructor
    · exact fun laidOut => laidOut endPtr after ⟨rfl, rfl⟩
    · rintro laidOut _ _ ⟨rfl, rfl⟩
      exact laidOut

/-- Two elements that end at the last offset are laid out contiguously. -/
theorem memoryLoadData_contiguous_below_limit :
    LaidOut (memoryRun CellTable [.addSegment])
      (memoryLoadData (memoryRun CellTable [.addSegment]) ⟨0, 0xFFFFFFFD⟩
        [.relocatable ⟨1, 0⟩, .relocatable ⟨2, 0⟩]).2
      ⟨0, 0xFFFFFFFD⟩ ⟨0, 0xFFFFFFFF⟩ [.relocatable ⟨1, 0⟩, .relocatable ⟨2, 0⟩] :=
  (memoryLoadData_contiguous_iff _ _ _).mpr (Or.inl (by decide)) _ _ rfl

/-- Two elements loaded at the last offset of a segment: the second one is written
at offset 0 of the segment, below the start of the load. -/
theorem memoryLoadData_contiguous_fails_at_limit :
    ¬∀ (ops : List (MemoryOp Values)) (ptr : Relocatable) (data : Values)
      (endPtr : Relocatable) (after : Memory CellTable),
      memoryLoadData (memoryRun CellTable ops) ptr data = (.ok endPtr, after) →
        LaidOut (memoryRun CellTable ops) after ptr endPtr data := by
  intro laidOut
  have wrapped := (laidOut [.addSegment] ⟨0, 0xFFFFFFFF⟩
    [.relocatable ⟨1, 0⟩, .relocatable ⟨2, 0⟩] ⟨0, 1⟩ _ rfl).frame ⟨0, 0⟩
      (Or.inr (Or.inl (by decide)))
  cases wrapped

/-! ## Failed loads -/

/-- The index at which a load stops: the first element if the segment is missing,
otherwise the first element in conflict. -/
def FirstFailure (mem : Memory Table) (ptr : Relocatable)
    (data : Values) (index : Nat) : Prop :=
  if ptr.segmentIndex ≥ mem.numSegments then index = 0
  else LoadConflict mem ptr data index ∧
    ∀ earlier < index, ¬LoadConflict mem ptr data earlier

omit [LawfulCCHashTable Table memoryConf] in
theorem exists_firstFailure {mem : Memory Table} {ptr : Relocatable}
    {data : Values}
    (failing : ptr.segmentIndex ≥ mem.numSegments ∨
      ∃ index, LoadConflict mem ptr data index) :
    ∃ index, FirstFailure mem ptr data index := by
  classical
  unfold FirstFailure
  split
  · exact ⟨0, rfl⟩
  · rename_i inside
    have conflict := failing.resolve_left inside
    exact ⟨Nat.find conflict, Nat.find_spec conflict,
      fun earlier before => Nat.find_min conflict before⟩

omit [LawfulCCHashTable Table memoryConf] in
/-- Nothing blocks the load before the index at which it stops. -/
theorem FirstFailure.blockedAt {mem : Memory Table} {ptr : Relocatable}
    {data : Values} {index : Nat}
    (nonempty : data ≠ []) (first : FirstFailure mem ptr data index) :
    BlockedAt (Created mem.numSegments) (cells mem) (loadWrites ptr data) index ∧
      ∀ earlier < index,
        ¬BlockedAt (Created mem.numSegments) (cells mem) (loadWrites ptr data) earlier := by
  simp only [blockedAt_loadWrites_iff]
  unfold FirstFailure at first
  split at first
  · rename_i outside
    subst first
    exact ⟨Or.inl ⟨List.length_pos_iff.mpr nonempty, outside⟩,
      fun earlier before => absurd before (Nat.not_lt_zero earlier)⟩
  · rename_i inside
    refine ⟨Or.inr first.1, fun earlier before => ?_⟩
    rintro (⟨-, outside⟩ | conflict)
    · exact inside outside
    · exact first.2 earlier before conflict

/-- A failed load leaves exactly a loaded prefix: the elements before the first
failure are stored at their targets, and nothing else happens. -/
theorem memoryLoadData_failure (mem : Memory Table) (ptr : Relocatable)
    (data : Values) :
    ((∃ error, (memoryLoadData mem ptr data).1 = .error error) ↔
      data ≠ [] ∧ (ptr.segmentIndex ≥ mem.numSegments ∨
        ∃ index, LoadConflict mem ptr data index)) ∧
    ((∃ error, (memoryLoadData mem ptr data).1 = .error error) →
      ∃ index < data.length, FirstFailure mem ptr data index ∧
        (memoryLoadData mem ptr data).1 = .error .loadData ∧
        (memoryLoadData mem ptr data).2.numSegments = mem.numSegments ∧
        ∀ address value,
          memoryGet (memoryLoadData mem ptr data).2 address = .ok value ↔
            memoryGet mem address = .ok value ∨
              ∃ position < index, ptr.advance position = address ∧
                data[position]? = some value) := by
  rw [exists_memoryLoadData_error_iff]
  refine ⟨memoryLoadData_error_iff, fun failed => ?_⟩
  obtain ⟨nonempty, failing⟩ := memoryLoadData_error_iff.mp failed
  obtain ⟨index, first⟩ := exists_firstFailure failing
  obtain ⟨blocked, free⟩ := first.blockedAt nonempty
  obtain ⟨consistent, stopped⟩ := attempt_of_first_blockedAt _ blocked free
  obtain ⟨write, found, -⟩ := blocked
  have bound : index < data.length := by
    rw [← length_loadWrites ptr data]
    exact (List.getElem?_eq_some_iff.mp found).1
  refine ⟨index, bound, first, failed, numSegments_memoryLoadData mem ptr data,
    fun address value => ?_⟩
  rw [memoryGet_eq_ok_iff, memoryGet_eq_ok_iff, cells_memoryLoadData, stopped,
    consistent.putAll_eq_some_iff, loadWrites_take, mem_loadWrites_iff]
  refine or_congr_right (exists_congr fun position => ?_)
  rw [List.getElem?_take]
  split
  · rename_i before
    simp [before]
  · rename_i beyond
    simp [beyond]

/-- A load of three elements whose second target already holds another value stops
there. -/
theorem memoryLoadData_failure_of_conflict :
    (∃ error, (memoryLoadData
      (memoryRun CellTable [.addSegment, .insert ⟨0, 1⟩ (.relocatable ⟨0, 0⟩)])
      ⟨0, 0⟩ (List.replicate 3 (.relocatable ⟨9, 9⟩))).1 = .error error) ∧
    ∃ index < 3, FirstFailure
      (memoryRun CellTable [.addSegment, .insert ⟨0, 1⟩ (.relocatable ⟨0, 0⟩)])
      ⟨0, 0⟩ (List.replicate 3 (.relocatable ⟨9, 9⟩)) index := by
  refine ⟨⟨.loadData, rfl⟩, ?_⟩
  obtain ⟨index, bound, first, -⟩ := (memoryLoadData_failure
    (memoryRun CellTable [.addSegment, .insert ⟨0, 1⟩ (.relocatable ⟨0, 0⟩)])
    ⟨0, 0⟩ (List.replicate 3 (.relocatable ⟨9, 9⟩))).2 ⟨.loadData, rfl⟩
  exact ⟨index, bound, first⟩

end CairoVM
