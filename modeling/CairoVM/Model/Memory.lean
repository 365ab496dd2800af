import CairoVM.Library.Machine
import CairoVM.Model.Collections
import CairoVM.Model.Relocatable

/-!
# The segmented memory

The functions of `memory.c`.  Every function that writes through its `memory *`
argument returns the memory it leaves behind together with its result, so a failed
call still reports the state it has reached.
-/

namespace CairoVM

/-- `MemoryError`. -/
inductive MemoryError where
  | get
  | insert
  | loadData
  deriving DecidableEq, Repr

/-- `memory`: the segment counter and the hash table from addresses to cells. -/
structure Memory (Table : Type) where
  numSegments : UInt32
  data : Table

/-- `key_compare`: zero exactly for equal keys. -/
def keyCompare (r1 r2 : Relocatable) : Int :=
  if !(r1.segmentIndex == r2.segmentIndex && r1.offset == r2.offset) then 1 else 0

theorem keyCompare_eq_zero_iff {r1 r2 : Relocatable} :
    keyCompare r1 r2 = 0 ↔ r1 = r2 := by
  cases r1
  cases r2
  simp [keyCompare]

/-- The configuration that `memory_new` passes to the hash table. -/
def memoryConf : CCHashTableConf Relocatable where
  keyCompare := keyCompare

/-- The single-bucket table of memory cells. -/
abbrev CellTable := ChainTable memoryConf MaybeRelocatable

/-- What an iterator over an array of values visits. -/
abbrev Values := List MaybeRelocatable

variable {Table : Type} [CCHashTable Table Relocatable MaybeRelocatable]

/-- `memory_new`. -/
def memoryNew (Table : Type) [CCHashTable Table Relocatable MaybeRelocatable] :
    Memory Table where
  numSegments := 0
  data := CCHashTable.newConf memoryConf

/-- `memory_get`. -/
def memoryGet (mem : Memory Table) (ptr : Relocatable) :
    Except MemoryError MaybeRelocatable :=
  match CCHashTable.get mem.data ptr with
  | .ok value => .ok value
  | .error _ => .error .get

/-- `memory_insert`. -/
def memoryInsert (mem : Memory Table) (ptr : Relocatable)
    (value : MaybeRelocatable) : Except MemoryError Unit × Memory Table :=
  -- Guard out of bounds writes
  if ptr.segmentIndex ≥ mem.numSegments then
    (.error .insert, mem)
  else
    -- Guard overwrites
    match CCHashTable.get mem.data ptr with
    | .ok prevValue =>
        if maybeRelocatableEqual prevValue value then (.ok (), mem)
        else (.error .insert, mem)
    | .error _ =>
        let (stat, data) := CCHashTable.add mem.data ptr value
        if stat = .ok then (.ok (), { mem with data })
        else (.error .insert, { mem with data })

/-- `memory_add_segment`. -/
def memoryAddSegment (mem : Memory Table) : Relocatable × Memory Table :=
  (⟨mem.numSegments, 0⟩, { mem with numSegments := mem.numSegments + 1 })

/-- `memory_load_data`: the loop over the array iterator, with the advancing
pointer and the memory as its state. -/
def memoryLoadData (mem : Memory Table) (ptr : Relocatable) :
    Values → Except MemoryError Relocatable × Memory Table
  | [] => (.ok ptr, mem)
  | value :: rest =>
      match memoryInsert mem ptr value with
      | (.error _, mem) => (.error .loadData, mem)
      | (.ok _, mem) =>
          memoryLoadData mem { ptr with offset := ptr.offset + 1 } rest

/-! ## Calls and their responses -/

/-- A call that writes cells, where `Data` says how a call refers to an array. -/
inductive WriteCall (Data : Type) where
  | insert (ptr : Relocatable) (value : MaybeRelocatable)
  | loadData (ptr : Relocatable) (data : Data)
  deriving DecidableEq, Repr

/-- A call that changes the memory. -/
inductive MemoryOp (Data : Type) where
  | addSegment
  | write (call : WriteCall Data)
  deriving DecidableEq, Repr

/-- A call with a result that the caller looks at. -/
inductive MemoryCall (Data : Type) where
  | op (op : MemoryOp Data)
  | get (ptr : Relocatable)
  deriving DecidableEq, Repr

section

variable {Data : Type}

@[match_pattern] abbrev MemoryOp.insert (ptr : Relocatable) (value : MaybeRelocatable) :
    MemoryOp Data :=
  .write (.insert ptr value)

@[match_pattern] abbrev MemoryOp.loadData (ptr : Relocatable) (data : Data) :
    MemoryOp Data :=
  .write (.loadData ptr data)

@[match_pattern] abbrev MemoryCall.addSegment : MemoryCall Data := .op .addSegment

@[match_pattern] abbrev MemoryCall.insert (ptr : Relocatable) (value : MaybeRelocatable) :
    MemoryCall Data :=
  .op (.insert ptr value)

@[match_pattern] abbrev MemoryCall.loadData (ptr : Relocatable) (data : Data) :
    MemoryCall Data :=
  .op (.loadData ptr data)

@[elab_as_elim, cases_eliminator]
theorem MemoryOp.cases {motive : MemoryOp Data → Prop} (op : MemoryOp Data)
    (addSegment : motive .addSegment)
    (insert : ∀ ptr value, motive (.insert ptr value))
    (loadData : ∀ ptr data, motive (.loadData ptr data)) : motive op :=
  match op with
  | .addSegment => addSegment
  | .insert ptr value => insert ptr value
  | .loadData ptr data => loadData ptr data

@[elab_as_elim, cases_eliminator]
theorem MemoryCall.cases {motive : MemoryCall Data → Prop} (call : MemoryCall Data)
    (addSegment : motive .addSegment)
    (insert : ∀ ptr value, motive (.insert ptr value))
    (get : ∀ ptr, motive (.get ptr))
    (loadData : ∀ ptr data, motive (.loadData ptr data)) : motive call :=
  match call with
  | .addSegment => addSegment
  | .insert ptr value => insert ptr value
  | .get ptr => get ptr
  | .loadData ptr data => loadData ptr data

end

/-- What a call that writes returns. -/
inductive WriteResult where
  | inserted (result : Except MemoryError Unit)
  | loaded (result : Except MemoryError Relocatable)

/-- What a call returns. -/
inductive MemoryResponse where
  | segment (base : Relocatable)
  | written (result : WriteResult)
  | got (result : Except MemoryError MaybeRelocatable)

@[match_pattern] abbrev MemoryResponse.inserted (result : Except MemoryError Unit) :
    MemoryResponse :=
  .written (.inserted result)

@[match_pattern] abbrev MemoryResponse.loaded (result : Except MemoryError Relocatable) :
    MemoryResponse :=
  .written (.loaded result)

/-- The write was refused. -/
def WriteResult.refused : WriteResult → Bool
  | .inserted result => !result.isOk
  | .loaded result => !result.isOk

/-- A write was refused. -/
def MemoryResponse.refused : MemoryResponse → Bool
  | .segment _ => false
  | .written result => result.refused
  | .got _ => false

/-- Execute a call that writes. -/
def WriteCall.exec (mem : Memory Table) : WriteCall Values → WriteResult × Memory Table
  | .insert ptr value => (memoryInsert mem ptr value).map .inserted id
  | .loadData ptr data => (memoryLoadData mem ptr data).map .loaded id

/-- Answer a call. -/
def memoryPerform (mem : Memory Table) : MemoryCall Values → MemoryResponse × Memory Table
  | .addSegment => (memoryAddSegment mem).map .segment id
  | .op (.write call) => (call.exec mem).map .written id
  | .get ptr => (.got (memoryGet mem ptr), mem)

theorem memoryPerform_insert (mem : Memory Table) (ptr : Relocatable)
    (value : MaybeRelocatable) :
    memoryPerform mem (.insert ptr value) =
      (.inserted (memoryInsert mem ptr value).1, (memoryInsert mem ptr value).2) := rfl

theorem memoryPerform_loadData (mem : Memory Table) (ptr : Relocatable) (data : Values) :
    memoryPerform mem (.loadData ptr data) =
      (.loaded (memoryLoadData mem ptr data).1, (memoryLoadData mem ptr data).2) := rfl

/-- The responses to a sequence of calls, in order. -/
def memoryResponses (mem : Memory Table) (calls : List (MemoryCall Values)) :
    List MemoryResponse :=
  Machine.log (fun mem call => (memoryPerform mem call).2)
    (fun mem call => [(memoryPerform mem call).1]) mem calls

/-- The memory that a sequence of calls leaves behind. -/
def memoryAfter (mem : Memory Table) (calls : List (MemoryCall Values)) : Memory Table :=
  Machine.run (fun mem call => (memoryPerform mem call).2) mem calls

/-! ## Runs -/

/-- The memory that a call leaves behind, whatever its result. -/
def memoryStep (mem : Memory Table) (op : MemoryOp Values) : Memory Table :=
  (memoryPerform mem (.op op)).2

@[simp] theorem memoryStep_addSegment (mem : Memory Table) :
    memoryStep mem .addSegment = (memoryAddSegment mem).2 := rfl

@[simp] theorem memoryStep_insert (mem : Memory Table) (ptr : Relocatable)
    (value : MaybeRelocatable) :
    memoryStep mem (.insert ptr value) = (memoryInsert mem ptr value).2 := rfl

@[simp] theorem memoryStep_loadData (mem : Memory Table) (ptr : Relocatable)
    (data : Values) :
    memoryStep mem (.loadData ptr data) = (memoryLoadData mem ptr data).2 := rfl

/-- The memory after a sequence of calls on a new memory. -/
def memoryRun (Table : Type) [CCHashTable Table Relocatable MaybeRelocatable]
    (ops : List (MemoryOp Values)) : Memory Table :=
  Machine.run memoryStep (memoryNew Table) ops

@[simp] theorem memoryRun_nil : memoryRun Table [] = memoryNew Table := rfl

@[simp] theorem memoryRun_concat (ops : List (MemoryOp Values)) (op : MemoryOp Values) :
    memoryRun Table (ops ++ [op]) = memoryStep (memoryRun Table ops) op :=
  Machine.run_concat memoryStep (memoryNew Table) ops op

theorem memoryRun_append (ops later : List (MemoryOp Values)) :
    memoryRun Table (ops ++ later) =
      Machine.run memoryStep (memoryRun Table ops) later :=
  Machine.run_append memoryStep (memoryNew Table) ops later

/-! ## Lives -/

/-- What a client does with a memory from its creation to its release. -/
inductive LifeCall (Call : Type) where
  | create
  | call (call : Call)
  | free
  deriving DecidableEq, Repr

namespace LifeCall

variable {Call : Type}

/-- Whether the memory exists afterwards. -/
def aliveAfter (alive : Bool) : LifeCall Call → Bool
  | create => true
  | call _ => alive
  | free => false

/-- A memory is created when there is none, and used and freed when there is one. -/
def Proper (alive : Bool) : LifeCall Call → Prop
  | create => alive = false
  | call _ => alive = true
  | free => alive = true

instance (alive : Bool) : DecidablePred (Proper alive : LifeCall Call → Prop)
  | create => inferInstanceAs (Decidable (alive = false))
  | call _ => inferInstanceAs (Decidable (alive = true))
  | free => inferInstanceAs (Decidable (alive = true))

/-- Complete lives, one after the other. -/
def Lives (calls : List (LifeCall Call)) : Prop :=
  Machine.Always aliveAfter Proper false calls ∧
    Machine.run aliveAfter false calls = false

instance (calls : List (LifeCall Call)) : Decidable (Lives calls) :=
  inferInstanceAs (Decidable (_ ∧ _))

end LifeCall

/-- What a call makes of a memory. -/
def lifeStep (mem : Memory Table) : LifeCall (MemoryCall Values) → Memory Table
  | .create => memoryNew Table
  | .call call => (memoryPerform mem call).2
  | .free => mem

/-- The response to a call that has one. -/
def lifeEmit (mem : Memory Table) : LifeCall (MemoryCall Values) → List MemoryResponse
  | .create => []
  | .call call => [(memoryPerform mem call).1]
  | .free => []

variable (Table) in
/-- The responses to the calls of some lives. -/
def lifeResponses (calls : List (LifeCall (MemoryCall Values))) : List MemoryResponse :=
  Machine.log lifeStep lifeEmit (memoryNew Table) calls

end CairoVM
