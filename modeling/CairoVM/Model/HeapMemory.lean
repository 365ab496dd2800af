import CairoVM.Model.HeapCollections

/-!
# The memory on the heap

The functions of `memory.c` once more, at the level of pointers: the table holds
pointers to keys and values that `memory_insert` allocates and `memory_free` releases,
and every access goes through a pointer.  This is where leaks, double releases and
dangling pointers show, as well as the allocations whose failure the code does not
check.
-/

namespace CairoVM.OnHeap

open HeapLogic

/-! ## The memory -/

/-- `memory`. -/
structure HeapMemory where
  numSegments : UInt32
  data : Pointer
  deriving DecidableEq, Repr

section

variable (platform : Platform Content) (collections : Collections)

/-- `memory_new`.  The status of `cc_hashtable_new_conf` is ignored. -/
def memoryNew : Prog HeapMemory := do
  let (_, data) ← collections.ccHashtableNewConf memoryConf .indeterminate
  pure ⟨0, data⟩

/-- `memory_get`. -/
def memoryGet (mem : HeapMemory) (ptr : Relocatable) :
    Prog (Except MemoryError MaybeRelocatable) := do
  match ← collections.ccHashtableGet mem.data ptr with
  | .ok value => do
      let value ← loadAs Content.maybeRelocatable? value
      pure (.ok value)
  | .error _ => pure (.error .get)

/-- `memory_insert`. -/
def memoryInsert (mem : HeapMemory) (ptr : Relocatable) (value : MaybeRelocatable) :
    Prog (Except MemoryError Unit) := do
  -- Guard out of bounds writes
  if ptr.segmentIndex ≥ mem.numSegments then
    pure (.error .insert)
  else
    -- Guard overwrites
    match ← collections.ccHashtableGet mem.data ptr with
    | .ok prevValue => do
        let prevValue ← loadAs Content.maybeRelocatable? prevValue
        if maybeRelocatableEqual prevValue value then pure (.ok ())
        else pure (.error .insert)
    | .error _ => do
        -- Neither allocation is checked
        let ptrAlloc ← malloc platform .uninitialized
        store ptrAlloc (.relocatable ptr)
        let valueAlloc ← malloc platform .uninitialized
        store valueAlloc (.maybeRelocatable value)
        let stat ← collections.ccHashtableAdd mem.data ptrAlloc valueAlloc
        if stat = .ok then pure (.ok ()) else pure (.error .insert)

/-- `memory_add_segment`. -/
def memoryAddSegment (mem : HeapMemory) : Relocatable × HeapMemory :=
  (⟨mem.numSegments, 0⟩, { mem with numSegments := mem.numSegments + 1 })

/-- The loop of `memory_load_data`. -/
def loadElements (mem : HeapMemory) (ptr : Relocatable) :
    List Pointer → Prog (Except MemoryError Relocatable)
  | [] => pure (.ok ptr)
  | element :: rest => do
      let value ← loadAs Content.maybeRelocatable? element
      match ← memoryInsert platform collections mem ptr value with
      | .error _ => pure (.error .loadData)
      | .ok _ => loadElements mem { ptr with offset := ptr.offset + 1 } rest

/-- `memory_load_data`. -/
def memoryLoadData (mem : HeapMemory) (ptr : Relocatable) (data : Pointer) :
    Prog (Except MemoryError Relocatable) := do
  let elements ← collections.ccArrayIter data
  loadElements platform collections mem ptr elements

/-- `memory_free`. -/
def memoryFree (mem : HeapMemory) : Prog Unit := do
  let entries ← collections.ccHashtableIter mem.data
  entries.forM fun entry => do
    free entry.value
    free entry.key
  collections.ccHashtableRemoveAll mem.data
  collections.ccHashtableDestroy mem.data

/-! ## Sessions -/

/-- Answer a call.  The array to load is behind a pointer of the caller. -/
def memoryPerform (mem : HeapMemory) : MemoryCall Pointer → Prog (MemoryResponse × HeapMemory)
  | .addSegment =>
      let (base, mem) := memoryAddSegment mem
      pure (.segment base, mem)
  | .insert ptr value => do
      let result ← memoryInsert platform collections mem ptr value
      pure (.inserted result, mem)
  | .get ptr => do
      let result ← memoryGet collections mem ptr
      pure (.got result, mem)
  | .loadData ptr data => do
      let result ← memoryLoadData platform collections mem ptr data
      pure (.loaded result, mem)

/-- Answer calls in order. -/
def performAll (mem : HeapMemory) :
    List (MemoryCall Pointer) → Prog (List MemoryResponse × HeapMemory)
  | [] => pure ([], mem)
  | call :: calls => do
      let (response, mem) ← memoryPerform platform collections mem call
      let (responses, mem) ← performAll mem calls
      pure (response :: responses, mem)

/-- The life of a memory: it is created, used and freed. -/
def memorySession (calls : List (MemoryCall Pointer)) : Prog (List MemoryResponse) := do
  let mem ← memoryNew collections
  let (responses, mem) ← performAll platform collections mem calls
  memoryFree collections mem
  pure responses

/-! ## Several memories -/

section

variable {Handle : Type} [DecidableEq Handle]

/-- Do something with one of several memories, and mark the response with its handle. -/
def poolPerform (mems : Handle → HeapMemory) :
    Handle × LifeCall (MemoryCall Pointer) →
      Prog (List (Handle × MemoryResponse) × (Handle → HeapMemory))
  | (handle, .create) => do
      let mem ← memoryNew collections
      pure ([], Function.update mems handle mem)
  | (handle, .call call) => do
      let (response, mem) ← memoryPerform platform collections (mems handle) call
      pure ([(handle, response)], Function.update mems handle mem)
  | (handle, .free) => do
      memoryFree collections (mems handle)
      pure ([], mems)

/-- Do one thing after the other. -/
def poolPerformAll (mems : Handle → HeapMemory) :
    List (Handle × LifeCall (MemoryCall Pointer)) →
      Prog (List (Handle × MemoryResponse) × (Handle → HeapMemory))
  | [] => pure ([], mems)
  | call :: calls => do
      let (responses, mems) ← poolPerform platform collections mems call
      let (others, mems) ← poolPerformAll mems calls
      pure (responses ++ others, mems)

/-- The lives of several memories, interleaved.  At first no variable has a memory. -/
def poolSession (calls : List (Handle × LifeCall (MemoryCall Pointer))) :
    Prog (List (Handle × MemoryResponse)) := do
  let (responses, _) ← poolPerformAll platform collections (fun _ => ⟨0, .indeterminate⟩)
    calls
  pure responses

end

end
end CairoVM.OnHeap
