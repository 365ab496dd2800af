import CairoVM.Library.WriteOnce
import CairoVM.Model.Memory

/-!
# The memory as a write-once store

The hash table of a memory is observed through `memory_get` only.  Seen this way it
is a write-once store: an insert is one guarded write, and a load attempts the
writes of its elements in order and stops at the first one that is refused.
-/

namespace CairoVM

open WriteOnce

variable {Table : Type} [CCHashTable Table Relocatable MaybeRelocatable]

/-- What `memory_get` returns at every address. -/
def cells (mem : Memory Table) : Contents Relocatable MaybeRelocatable :=
  fun ptr => (memoryGet mem ptr).toOption

/-- The out of bounds guard of `memory_insert`. -/
def Created (numSegments : UInt32) (ptr : Relocatable) : Prop :=
  ptr.segmentIndex < numSegments

instance (numSegments : UInt32) : DecidablePred (Created numSegments) :=
  fun ptr => inferInstanceAs (Decidable (ptr.segmentIndex < numSegments))

theorem memoryGet_eq_ok_iff {mem : Memory Table} {ptr : Relocatable}
    {value : MaybeRelocatable} :
    memoryGet mem ptr = .ok value ↔ cells mem ptr = some value := by
  unfold cells
  cases memoryGet mem ptr <;> simp [Except.toOption]

/-- The only error of `memory_get` is the one for an empty cell. -/
theorem memoryGet_eq_error_iff {mem : Memory Table} {ptr : Relocatable}
    {error : MemoryError} :
    memoryGet mem ptr = .error error ↔ cells mem ptr = none ∧ error = .get := by
  unfold cells memoryGet
  cases CCHashTable.get mem.data ptr <;> simp [Except.toOption, eq_comm]

theorem memoryGet_eq (mem : Memory Table) (ptr : Relocatable) :
    memoryGet mem ptr = (cells mem ptr).elim (.error .get) .ok := by
  unfold cells memoryGet
  cases CCHashTable.get mem.data ptr <;> rfl

theorem memoryGet_congr {mem other : Memory Table} {ptr ptr' : Relocatable}
    (same : cells mem ptr = cells other ptr') :
    memoryGet mem ptr = memoryGet other ptr' := by
  rw [memoryGet_eq, memoryGet_eq, same]

/-! ## Segments -/

@[simp] theorem cells_memoryAddSegment (mem : Memory Table) :
    cells (memoryAddSegment mem).2 = cells mem := rfl

omit [CCHashTable Table Relocatable MaybeRelocatable] in
@[simp] theorem numSegments_memoryAddSegment (mem : Memory Table) :
    (memoryAddSegment mem).2.numSegments = mem.numSegments + 1 := rfl

/-- The table lookup behind `memory_get` and `memory_insert`, in terms of the
cells. -/
private theorem get_data_cases (mem : Memory Table) (ptr : Relocatable) :
    (∃ value, CCHashTable.get mem.data ptr = .ok value ∧
      cells mem ptr = some value) ∨
    (∃ stat, CCHashTable.get mem.data ptr = .error stat ∧ cells mem ptr = none) := by
  unfold cells memoryGet
  cases CCHashTable.get mem.data ptr <;> simp [Except.toOption]

variable [LawfulCCHashTable Table memoryConf]

@[simp] theorem cells_memoryNew : cells (memoryNew Table) = fun _ => none := by
  funext ptr
  simp [cells, memoryGet, memoryNew, LawfulCCHashTable.get_newConf, Except.toOption]

/-! ## Inserts -/

private theorem cells_add (mem : Memory Table) (ptr : Relocatable)
    (value : MaybeRelocatable) (empty : cells mem ptr = none) :
    cells { mem with data := (CCHashTable.add mem.data ptr value).2 } =
      put (cells mem) (ptr, value) := by
  funext query
  unfold cells memoryGet
  rw [@LawfulCCHashTable.get_add Table _ _ _ memoryConf]
  by_cases same : query = ptr
  · subst same
    have equalKeys : memoryConf.keyCompare query query = 0 :=
      keyCompare_eq_zero_iff.mpr rfl
    simp [equalKeys, put, cells, memoryGet, Except.toOption] at empty ⊢
    simp [empty]
  · have differentKeys : memoryConf.keyCompare query ptr ≠ 0 :=
      fun equal => same (keyCompare_eq_zero_iff.mp equal)
    simp [differentKeys, put, same]

/-- What one call of `memory_insert` can do: perform the write, or change nothing
at all. -/
theorem memoryInsert_cases (mem : Memory Table) (ptr : Relocatable)
    (value : MaybeRelocatable) :
    (Accepts (Created mem.numSegments) (cells mem) (ptr, value) ∧
      (memoryInsert mem ptr value).1 = .ok () ∧
      (memoryInsert mem ptr value).2.numSegments = mem.numSegments ∧
      cells (memoryInsert mem ptr value).2 = put (cells mem) (ptr, value)) ∨
    (¬Accepts (Created mem.numSegments) (cells mem) (ptr, value) ∧
      memoryInsert mem ptr value = (.error .insert, mem)) := by
  unfold memoryInsert
  by_cases outside : ptr.segmentIndex ≥ mem.numSegments
  · right
    refine ⟨fun accepted => ?_, if_pos outside⟩
    exact absurd accepted.1 (UInt32.not_lt.mpr outside)
  · have created : Created mem.numSegments ptr := UInt32.not_le.mp outside
    simp only [if_neg outside]
    rcases get_data_cases mem ptr with
      ⟨held, found, present⟩ | ⟨stat, missing, empty⟩
    · simp only [found]
      by_cases equal : held = value
      · left
        have guardPasses : maybeRelocatableEqual held value = true :=
          maybeRelocatableEqual_iff.mpr equal
        subst equal
        rw [if_pos guardPasses, put_of_eq_some present]
        refine ⟨⟨created, ?_⟩, rfl, rfl, rfl⟩
        intro other otherPresent
        exact (Option.some.inj (present.symm.trans otherPresent)).symm
      · right
        rw [if_neg (mt maybeRelocatableEqual_iff.mp equal)]
        exact ⟨fun accepted => equal (accepted.2 held present), rfl⟩
    · left
      simp only [missing, @LawfulCCHashTable.add_stat Table _ _ _ memoryConf, if_true]
      exact ⟨⟨created, agrees_of_none empty⟩, trivial, trivial,
        cells_add mem ptr value empty⟩

/-- An insert succeeds exactly when the store accepts the write. -/
theorem memoryInsert_ok_iff {mem : Memory Table} {ptr : Relocatable}
    {value : MaybeRelocatable} :
    (memoryInsert mem ptr value).1 = .ok () ↔
      Accepts (Created mem.numSegments) (cells mem) (ptr, value) := by
  rcases memoryInsert_cases mem ptr value with ⟨accepted, ok, -, -⟩ | ⟨refused, failed⟩
  · exact ⟨fun _ => accepted, fun _ => ok⟩
  · simp [failed, refused]

/-- A rejected insert returns the insert error and the memory it was given. -/
theorem memoryInsert_of_refused {mem : Memory Table} {ptr : Relocatable}
    {value : MaybeRelocatable}
    (refused : ¬Accepts (Created mem.numSegments) (cells mem) (ptr, value)) :
    memoryInsert mem ptr value = (.error .insert, mem) := by
  rcases memoryInsert_cases mem ptr value with ⟨accepted, -⟩ | ⟨-, failed⟩
  · exact absurd accepted refused
  · exact failed

theorem cells_memoryInsert_of_accepted {mem : Memory Table} {ptr : Relocatable}
    {value : MaybeRelocatable}
    (accepted : Accepts (Created mem.numSegments) (cells mem) (ptr, value)) :
    cells (memoryInsert mem ptr value).2 = put (cells mem) (ptr, value) := by
  rcases memoryInsert_cases mem ptr value with ⟨-, -, -, written⟩ | ⟨refused, -⟩
  · exact written
  · exact absurd accepted refused

@[simp] theorem numSegments_memoryInsert (mem : Memory Table) (ptr : Relocatable)
    (value : MaybeRelocatable) :
    (memoryInsert mem ptr value).2.numSegments = mem.numSegments := by
  rcases memoryInsert_cases mem ptr value with ⟨-, -, same, -⟩ | ⟨-, failed⟩
  · exact same
  · rw [failed]

/-! ## Loads -/

/-- The address `count` cells further, in the 32-bit arithmetic of the offset. -/
def Relocatable.advance (ptr : Relocatable) (count : Nat) : Relocatable :=
  { ptr with offset := ptr.offset + UInt32.ofNat count }

@[simp] theorem Relocatable.advance_zero (ptr : Relocatable) : ptr.advance 0 = ptr := by
  simp [advance]

theorem Relocatable.advance_succ (ptr : Relocatable) (count : Nat) :
    ptr.advance (count + 1) =
      Relocatable.advance { ptr with offset := ptr.offset + 1 } count := by
  simp only [advance, UInt32.ofNat_add, mk.injEq, true_and]
  grind

/-- The writes that a load attempts. -/
def loadWrites (ptr : Relocatable) :
    Values → List (Relocatable × MaybeRelocatable)
  | [] => []
  | value :: rest =>
      (ptr, value) :: loadWrites { ptr with offset := ptr.offset + 1 } rest

/-- Element `index` of the data goes to the address `index` cells after the
start. -/
theorem getElem?_loadWrites (ptr : Relocatable) (data : Values)
    (index : Nat) :
    (loadWrites ptr data)[index]? =
      data[index]?.map fun value => (ptr.advance index, value) := by
  induction data generalizing ptr index with
  | nil => simp [loadWrites]
  | cons value rest ih =>
      cases index with
      | zero => simp [loadWrites]
      | succ index =>
          simp only [loadWrites, List.getElem?_cons_succ, ih, Relocatable.advance_succ]

@[simp] theorem length_loadWrites (ptr : Relocatable)
    (data : Values) :
    (loadWrites ptr data).length = data.length := by
  induction data generalizing ptr with
  | nil => rfl
  | cons value rest ih => simp [loadWrites, ih]

theorem mem_loadWrites_iff {ptr : Relocatable} {data : Values}
    {write : Relocatable × MaybeRelocatable} :
    write ∈ loadWrites ptr data ↔
      ∃ index, ptr.advance index = write.1 ∧ data[index]? = some write.2 := by
  simp only [List.mem_iff_getElem?, getElem?_loadWrites, Option.map_eq_some_iff]
  constructor
  · rintro ⟨index, value, found, rfl⟩
    exact ⟨index, rfl, found⟩
  · rintro ⟨index, target, found⟩
    exact ⟨index, write.2, found, Prod.ext target rfl⟩

/-- A load is an attempt of its writes: the same verdict, the same cells, and the
same number of segments as before. -/
theorem memoryLoadData_refines (mem : Memory Table) (ptr : Relocatable)
    (data : Values) :
    (memoryLoadData mem ptr data).1 =
      (if (attempt (Created mem.numSegments) (cells mem) (loadWrites ptr data)).1
        then .ok (ptr.advance data.length) else .error .loadData) ∧
    cells (memoryLoadData mem ptr data).2 =
      (attempt (Created mem.numSegments) (cells mem) (loadWrites ptr data)).2 ∧
    (memoryLoadData mem ptr data).2.numSegments = mem.numSegments := by
  induction data generalizing mem ptr with
  | nil => simp [memoryLoadData, loadWrites, attempt]
  | cons value rest ih =>
      rw [memoryLoadData, loadWrites, attempt]
      by_cases accepted : Accepts (Created mem.numSegments) (cells mem) (ptr, value)
      · have ok := memoryInsert_ok_iff.mpr accepted
        have written := cells_memoryInsert_of_accepted accepted
        have same := numSegments_memoryInsert mem ptr value
        rcases outcome : memoryInsert mem ptr value with ⟨result, after⟩
        rw [outcome] at ok written same
        dsimp only at ok written same
        subst ok
        rw [if_pos accepted, ← written, ← same, List.length_cons,
          Relocatable.advance_succ]
        exact ih after { ptr with offset := ptr.offset + 1 }
      · rw [memoryInsert_of_refused accepted, if_neg accepted]
        exact ⟨rfl, rfl, rfl⟩

@[simp] theorem numSegments_memoryLoadData (mem : Memory Table) (ptr : Relocatable)
    (data : Values) :
    (memoryLoadData mem ptr data).2.numSegments = mem.numSegments :=
  (memoryLoadData_refines mem ptr data).2.2

theorem cells_memoryLoadData (mem : Memory Table) (ptr : Relocatable)
    (data : Values) :
    cells (memoryLoadData mem ptr data).2 =
      (attempt (Created mem.numSegments) (cells mem) (loadWrites ptr data)).2 :=
  (memoryLoadData_refines mem ptr data).2.1

/-- A load succeeds exactly when its segment exists, unless it has nothing to write,
and its writes are consistent; the end pointer is then the start advanced by the
length of the data. -/
theorem memoryLoadData_ok_iff {mem : Memory Table} {ptr endPtr : Relocatable}
    {data : Values} :
    (memoryLoadData mem ptr data).1 = .ok endPtr ↔
      endPtr = ptr.advance data.length ∧
      (∀ write ∈ loadWrites ptr data, Created mem.numSegments write.1) ∧
      Consistent (cells mem) (loadWrites ptr data) := by
  rw [(memoryLoadData_refines mem ptr data).1, ← attempt_fst_iff]
  split
  · rename_i accepted
    simp [accepted, eq_comm]
  · rename_i refused
    simp [refused]

end CairoVM
