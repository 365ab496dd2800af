import CairoVM.Memory.Refinement

/-!
# What the memory is for

Seen through the results of its calls, the memory is a store of write-once cells in
numbered segments.  The store here has no hash table: a state is the segment counter
and the contents of the cells.  Every run of the memory over a lawful table answers
every call as the store does, so the table cannot be observed.

The store may be allowed to refuse writes to empty cells that it could accept.  This is
what is left of it when allocations fail.
-/

namespace CairoVM

open WriteOnce

/-! ## The store -/

/-- A segment counter and the contents of the cells. -/
structure CellStore where
  numSegments : UInt32
  contents : Contents Relocatable MaybeRelocatable

namespace CellStore

/-- No segments and no cells. -/
def empty : CellStore := ⟨0, fun _ => none⟩

/-- One call on the store.  If `mayRefuse`, new cells may be refused without need. -/
inductive Performs (mayRefuse : Prop) :
    CellStore → MemoryCall Values → MemoryResponse → CellStore → Prop
  | addSegment (store : CellStore) :
      Performs mayRefuse store .addSegment (.segment ⟨store.numSegments, 0⟩)
        { store with numSegments := store.numSegments + 1 }
  | insert {store : CellStore} {ptr : Relocatable} {value : MaybeRelocatable}
      {verdict : Bool} {contents : Contents Relocatable MaybeRelocatable}
      (attempted : Attempted (Created store.numSegments) mayRefuse store.contents
        [(ptr, value)] verdict contents) :
      Performs mayRefuse store (.insert ptr value)
        (.inserted (if verdict then .ok () else .error .insert)) { store with contents }
  | get (store : CellStore) (ptr : Relocatable) :
      Performs mayRefuse store (.get ptr)
        (.got ((store.contents ptr).elim (.error .get) .ok)) store
  | loadData {store : CellStore} {ptr : Relocatable} {data : Values}
      {verdict : Bool} {contents : Contents Relocatable MaybeRelocatable}
      (attempted : Attempted (Created store.numSegments) mayRefuse store.contents
        (loadWrites ptr data) verdict contents) :
      Performs mayRefuse store (.loadData ptr data)
        (.loaded (if verdict then .ok (ptr.advance data.length) else .error .loadData))
        { store with contents }

/-- A sequence of calls on the store, with their responses. -/
inductive Runs (mayRefuse : Prop) :
    CellStore → List (MemoryCall Values) → List MemoryResponse → CellStore → Prop
  | nil (store : CellStore) : Runs mayRefuse store [] [] store
  | cons {store middle after : CellStore} {call : MemoryCall Values}
      {calls : List (MemoryCall Values)}
      {response : MemoryResponse} {responses : List MemoryResponse}
      (first : Performs mayRefuse store call response middle)
      (later : Runs mayRefuse middle calls responses after) :
      Runs mayRefuse store (call :: calls) (response :: responses) after

section Reliable

variable {mayRefuse : Prop} (reliable : ¬mayRefuse)
include reliable

/-- A reliable store has one answer to a call. -/
theorem Performs.unique {store after after' : CellStore} {call : MemoryCall Values}
    {response response' : MemoryResponse}
    (first : Performs mayRefuse store call response after)
    (second : Performs mayRefuse store call response' after') :
    response = response' ∧ after = after' := by
  cases first with
  | addSegment =>
      cases second
      exact ⟨rfl, rfl⟩
  | get =>
      cases second
      exact ⟨rfl, rfl⟩
  | insert attempted =>
      cases second with
      | insert attempted' =>
          have same := (attempted.eq_attempt _ reliable).symm.trans
            (attempted'.eq_attempt _ reliable)
          simp only [Prod.mk.injEq] at same
          rw [same.1, same.2]
          exact ⟨rfl, rfl⟩
  | loadData attempted =>
      cases second with
      | loadData attempted' =>
          have same := (attempted.eq_attempt _ reliable).symm.trans
            (attempted'.eq_attempt _ reliable)
          simp only [Prod.mk.injEq] at same
          rw [same.1, same.2]
          exact ⟨rfl, rfl⟩

/-- A reliable store has one answer to a sequence of calls. -/
theorem Runs.unique {store after after' : CellStore} {calls : List (MemoryCall Values)}
    {responses responses' : List MemoryResponse}
    (first : Runs mayRefuse store calls responses after)
    (second : Runs mayRefuse store calls responses' after') :
    responses = responses' ∧ after = after' := by
  induction first generalizing responses' after' with
  | nil =>
      cases second
      exact ⟨rfl, rfl⟩
  | cons performs later ih =>
      cases second with
      | cons performs' later' =>
          obtain ⟨rfl, rfl⟩ := performs.unique reliable performs'
          obtain ⟨rfl, rfl⟩ := ih later'
          exact ⟨rfl, rfl⟩

end Reliable

end CellStore

/-! ## The memory answers as the store -/

section Calls

variable {Table : Type} [CCHashTable Table Relocatable MaybeRelocatable]

/-- The store that a memory implements. -/
def Memory.store (mem : Memory Table) : CellStore := ⟨mem.numSegments, cells mem⟩

variable [LawfulCCHashTable Table memoryConf]

theorem store_memoryNew : (memoryNew Table).store = .empty := by
  rw [Memory.store, cells_memoryNew]
  rfl

/-- Each call of the memory is a call of its store that refuses nothing without
need. -/
theorem memoryPerform_performs (mem : Memory Table) (call : MemoryCall Values) :
    CellStore.Performs False mem.store call (memoryPerform mem call).1
      (memoryPerform mem call).2.store := by
  cases call with
  | addSegment => exact .addSegment mem.store
  | get ptr =>
      rw [memoryPerform, memoryGet_eq]
      exact .get mem.store ptr
  | insert ptr value =>
      rcases memoryInsert_cases mem ptr value with
        ⟨accepted, ok, same, written⟩ | ⟨refused, failed⟩
      · simp only [memoryPerform_insert, Memory.store, ok, same, written]
        exact .insert (.accept accepted (.done _))
      · simp only [memoryPerform_insert, failed]
        exact .insert (.refuse fun accepted => absurd accepted refused)
  | loadData ptr data =>
      obtain ⟨result, contents, same⟩ := memoryLoadData_refines mem ptr data
      simp only [memoryPerform_loadData, Memory.store, result, contents, same]
      exact .loadData (attempted_attempt _ _ _ _)

/-- The memory answers every sequence of calls as its store does. -/
theorem memoryResponses_runs (mem : Memory Table) (calls : List (MemoryCall Values)) :
    CellStore.Runs False mem.store calls (memoryResponses mem calls)
      (memoryAfter mem calls).store := by
  induction calls generalizing mem with
  | nil => exact .nil mem.store
  | cons call calls ih =>
      exact .cons (memoryPerform_performs mem call) (ih (memoryPerform mem call).2)

/-- Two memories over any lawful tables answer all sequences of calls alike exactly when
they implement the same store. -/
theorem memoryResponses_eq_iff {Other : Type}
    [CCHashTable Other Relocatable MaybeRelocatable] [LawfulCCHashTable Other memoryConf]
    (mem : Memory Table) (other : Memory Other) :
    (∀ calls, memoryResponses mem calls = memoryResponses other calls) ↔
      mem.store = other.store := by
  constructor
  · intro same
    have counter : memoryResponses mem [.addSegment] = memoryResponses other [.addSegment] :=
      same [.addSegment]
    have lookup : cells mem = cells other := by
      funext ptr
      have read : memoryResponses mem [.get ptr] = memoryResponses other [.get ptr] :=
        same [.get ptr]
      simp only [memoryResponses, Machine.log_cons, Machine.log_nil, memoryPerform,
        List.append_nil, List.cons.injEq, and_true, MemoryResponse.got.injEq] at read
      rw [cells, cells, read]
    simp only [memoryResponses, Machine.log_cons, Machine.log_nil, memoryPerform,
      memoryAddSegment, Prod.map, List.append_nil, List.cons.injEq, and_true,
      MemoryResponse.segment.injEq, Relocatable.mk.injEq] at counter
    rw [Memory.store, Memory.store, counter, lookup]
  · intro same calls
    have first := memoryResponses_runs mem calls
    rw [same] at first
    exact (first.unique not_false (memoryResponses_runs other calls)).1

/-- Two chains with the same entries in different orders. -/
theorem memoryResponses_eq_swapped : ∃ mem other : Memory CellTable,
    mem.data.entries ≠ other.data.entries ∧
      ∀ calls, memoryResponses mem calls = memoryResponses other calls := by
  let first : Relocatable × MaybeRelocatable := (⟨0, 0⟩, .relocatable ⟨1, 1⟩)
  let second : Relocatable × MaybeRelocatable := (⟨0, 1⟩, .relocatable ⟨2, 2⟩)
  refine ⟨⟨1, ⟨[first, second]⟩⟩, ⟨1, ⟨[second, first]⟩⟩, by decide,
    (memoryResponses_eq_iff _ _).mpr ?_⟩
  refine congrArg (CellStore.mk 1) (funext fun ptr => congrArg Except.toOption ?_)
  simp only [memoryGet, CCHashTable.get, ChainTable.find, memoryConf,
    keyCompare_eq_zero_iff]
  by_cases atFirst : ptr = first.1
  · subst atFirst
    rfl
  · simp only [atFirst, if_false]

end Calls

end CairoVM
