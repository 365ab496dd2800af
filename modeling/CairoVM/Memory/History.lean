import CairoVM.Memory.Refinement

/-!
# The history of a memory

Every cell is written by some execution of `memory_insert`, called directly or by an
iteration of `memory_load_data`.  This module logs those executions along a run and
shows that the log determines the contents: a cell holds the value of the first
accepted insert at its address, for ever.
-/

namespace CairoVM

open WriteOnce

variable {Table : Type} [CCHashTable Table Relocatable MaybeRelocatable]

/-- One execution of `memory_insert`, with the memory it started from. -/
structure InsertCall (Table : Type) where
  before : Memory Table
  ptr : Relocatable
  value : MaybeRelocatable

namespace InsertCall

/-- The insert returned no error. -/
def accepted (call : InsertCall Table) : Bool :=
  (memoryInsert call.before call.ptr call.value).1.isOk

/-- `memory_get` failed at the target when the insert started. -/
def FoundUnoccupied (call : InsertCall Table) : Prop :=
  memoryGet call.before call.ptr = .error .get

end InsertCall

/-- The inserts that `memory_load_data` executes: one for each iteration, up to the
first that fails. -/
def loadCalls (mem : Memory Table) (ptr : Relocatable) :
    Values → List (InsertCall Table)
  | [] => []
  | value :: rest =>
      ⟨mem, ptr, value⟩ ::
        match memoryInsert mem ptr value with
        | (.error _, _) => []
        | (.ok _, mem) => loadCalls mem { ptr with offset := ptr.offset + 1 } rest

/-- The inserts that one call executes. -/
def insertCalls (mem : Memory Table) : MemoryOp Values → List (InsertCall Table)
  | .addSegment => []
  | .insert ptr value => [⟨mem, ptr, value⟩]
  | .loadData ptr data => loadCalls mem ptr data

/-- The inserts executed by a sequence of calls on a new memory. -/
def memoryRunCalls (Table : Type) [CCHashTable Table Relocatable MaybeRelocatable]
    (ops : List (MemoryOp Values)) : List (InsertCall Table) :=
  Machine.log memoryStep insertCalls (memoryNew Table) ops

@[simp] theorem memoryRunCalls_nil : memoryRunCalls Table [] = [] := rfl

@[simp] theorem memoryRunCalls_concat (ops : List (MemoryOp Values)) (op : MemoryOp Values) :
    memoryRunCalls Table (ops ++ [op]) =
      memoryRunCalls Table ops ++ insertCalls (memoryRun Table ops) op :=
  Machine.log_concat memoryStep insertCalls (memoryNew Table) ops op

/-- The value of the first accepted insert at an address. -/
def firstAccepted (calls : List (InsertCall Table)) (ptr : Relocatable) :
    Option MaybeRelocatable :=
  (calls.find? fun call => call.ptr = ptr && call.accepted).map InsertCall.value

@[simp] theorem firstAccepted_nil (ptr : Relocatable) :
    firstAccepted ([] : List (InsertCall Table)) ptr = none := rfl

theorem firstAccepted_append (first second : List (InsertCall Table))
    (ptr : Relocatable) :
    firstAccepted (first ++ second) ptr =
      (firstAccepted first ptr).or (firstAccepted second ptr) := by
  unfold firstAccepted
  rw [List.find?_append]
  cases first.find? fun call => call.ptr = ptr && call.accepted <;> simp

/-- The addresses that a call may write. -/
def MemoryOp.Targets (ptr : Relocatable) : MemoryOp Values → Prop
  | .addSegment => False
  | .insert target _ => target = ptr
  | .loadData start data => ∃ index < data.length, start.advance index = ptr

variable [LawfulCCHashTable Table memoryConf]

theorem InsertCall.accepted_iff {call : InsertCall Table} :
    call.accepted = true ↔
      Accepts (Created call.before.numSegments) (cells call.before)
        (call.ptr, call.value) := by
  rw [← memoryInsert_ok_iff, accepted]
  cases (memoryInsert call.before call.ptr call.value).1 <;> simp [Except.isOk, Except.toBool]

/-- An insert into an occupied cell succeeds exactly when the cell is in a created
segment and already holds the value. -/
theorem memoryInsert_present_ok_iff {mem : Memory Table} {ptr : Relocatable}
    {held value : MaybeRelocatable} (present : memoryGet mem ptr = .ok held) :
    (memoryInsert mem ptr value).1 = .ok () ↔
      Created mem.numSegments ptr ∧ held = value := by
  rw [memoryGet_eq_ok_iff] at present
  rw [memoryInsert_ok_iff, Accepts, Agrees, present]
  simp

/-- The cells after an insert, whatever its outcome. -/
theorem cells_memoryInsert (mem : Memory Table) (ptr : Relocatable)
    (value : MaybeRelocatable) :
    cells (memoryInsert mem ptr value).2 =
      if Accepts (Created mem.numSegments) (cells mem) (ptr, value) then
        put (cells mem) (ptr, value)
      else cells mem := by
  split
  · rename_i accepted
    exact cells_memoryInsert_of_accepted accepted
  · rename_i refused
    rw [memoryInsert_of_refused refused]

/-! ## The first accepted insert -/

theorem cells_memoryInsert_eq_or (mem : Memory Table) (target : Relocatable)
    (value : MaybeRelocatable) (ptr : Relocatable) :
    cells (memoryInsert mem target value).2 ptr =
      (cells mem ptr).or (firstAccepted [⟨mem, target, value⟩] ptr) := by
  rw [cells_memoryInsert]
  by_cases accepted : Accepts (Created mem.numSegments) (cells mem) (target, value)
  · have logged : InsertCall.accepted ⟨mem, target, value⟩ = true :=
      InsertCall.accepted_iff.mpr accepted
    by_cases same : target = ptr
    · subst same
      simp [accepted, firstAccepted, logged, put]
    · simp [accepted, firstAccepted, logged, put, same, Ne.symm same]
  · have logged : ¬InsertCall.accepted ⟨mem, target, value⟩ = true :=
      mt InsertCall.accepted_iff.mp accepted
    simp [accepted, firstAccepted, logged]

/-- The load loop writes a cell through the first accepted of its inserts. -/
theorem cells_memoryLoadData_eq_or (mem : Memory Table) (start : Relocatable)
    (data : Values) (ptr : Relocatable) :
    cells (memoryLoadData mem start data).2 ptr =
      (cells mem ptr).or (firstAccepted (loadCalls mem start data) ptr) := by
  induction data generalizing mem start with
  | nil => simp [memoryLoadData, loadCalls]
  | cons value rest ih =>
      have head := cells_memoryInsert_eq_or mem start value ptr
      rw [memoryLoadData, loadCalls, ← List.singleton_append, firstAccepted_append,
        ← Option.or_assoc, ← head]
      rcases memoryInsert mem start value with ⟨error | done, after⟩
      · simp
      · exact ih after { start with offset := start.offset + 1 }

theorem cells_memoryStep_eq_or (mem : Memory Table) (op : MemoryOp Values)
    (ptr : Relocatable) :
    cells (memoryStep mem op) ptr =
      (cells mem ptr).or (firstAccepted (insertCalls mem op) ptr) := by
  cases op with
  | addSegment => simp [insertCalls]
  | insert target value => exact cells_memoryInsert_eq_or mem target value ptr
  | loadData start data => exact cells_memoryLoadData_eq_or mem start data ptr

/-- The contents of a memory are a function of its log. -/
theorem cells_memoryRun (ops : List (MemoryOp Values)) (ptr : Relocatable) :
    cells (memoryRun Table ops) ptr = firstAccepted (memoryRunCalls Table ops) ptr := by
  induction ops using List.reverseRecOn with
  | nil => simp
  | append_singleton ops op ih =>
      rw [memoryRun_concat, memoryRunCalls_concat, firstAccepted_append,
        cells_memoryStep_eq_or, ih]

/-! ## Inserts that find their cell empty -/

/-- The insert put a value into an empty cell. -/
def InsertCall.Fills (ptr : Relocatable) (value : MaybeRelocatable)
    (call : InsertCall Table) : Prop :=
  call.ptr = ptr ∧ call.FoundUnoccupied ∧ call.accepted = true ∧ call.value = value

theorem cells_memoryInsert_eq_some_iff (mem : Memory Table) (target : Relocatable)
    (written : MaybeRelocatable) (ptr : Relocatable) (value : MaybeRelocatable) :
    cells (memoryInsert mem target written).2 ptr = some value ↔
      cells mem ptr = some value ∨
        InsertCall.Fills ptr value ⟨mem, target, written⟩ := by
  simp only [InsertCall.Fills, InsertCall.FoundUnoccupied, InsertCall.accepted_iff,
    memoryGet_eq_error_iff, and_true]
  rw [cells_memoryInsert]
  by_cases accepted : Accepts (Created mem.numSegments) (cells mem) (target, written)
  · rw [if_pos accepted, put_eq_some_iff accepted.2]
    cases present : cells mem target with
    | none => simp [accepted, eq_comm]
    | some held =>
        have heldEq : held = written := accepted.2 held present
        subst heldEq
        simp only [Prod.mk.injEq, reduceCtorEq, false_and, and_false, or_false,
          or_iff_left_iff_imp, and_imp]
        rintro rfl rfl
        exact present
  · simp [accepted]

theorem cells_memoryLoadData_eq_some_iff (mem : Memory Table) (start : Relocatable)
    (data : Values) (ptr : Relocatable) (value : MaybeRelocatable) :
    cells (memoryLoadData mem start data).2 ptr = some value ↔
      cells mem ptr = some value ∨
        ∃ call ∈ loadCalls mem start data, call.Fills ptr value := by
  induction data generalizing mem start with
  | nil => simp [memoryLoadData, loadCalls]
  | cons written rest ih =>
      have head := cells_memoryInsert_eq_some_iff mem start written ptr value
      rw [memoryLoadData, loadCalls, List.exists_mem_cons_iff, ← or_assoc, ← head]
      rcases memoryInsert mem start written with ⟨error | done, after⟩
      · simp
      · exact ih after { start with offset := start.offset + 1 }

/-- A cell holds a value exactly when some insert of the run put it there. -/
theorem cells_memoryRun_eq_some_iff (ops : List (MemoryOp Values)) (ptr : Relocatable)
    (value : MaybeRelocatable) :
    cells (memoryRun Table ops) ptr = some value ↔
      ∃ call ∈ memoryRunCalls Table ops, call.Fills ptr value := by
  induction ops using List.reverseRecOn with
  | nil => simp
  | append_singleton ops op ih =>
      rw [memoryRun_concat, memoryRunCalls_concat]
      simp only [List.mem_append, or_and_right, exists_or, ← ih]
      cases op with
      | addSegment => simp [insertCalls]
      | insert target written =>
          simpa [insertCalls] using
            cells_memoryInsert_eq_some_iff (memoryRun Table ops) target written ptr value
      | loadData start data =>
          exact cells_memoryLoadData_eq_some_iff (memoryRun Table ops) start data ptr value

/-! ## Immutability -/

/-- No call makes a readable value change or disappear. -/
theorem cells_memoryStep_extends (mem : Memory Table) (op : MemoryOp Values) :
    (cells (memoryStep mem op)).Extends (cells mem) := by
  intro ptr value present
  rw [cells_memoryStep_eq_or, present, Option.some_or]

theorem cells_run_extends (mem : Memory Table) (ops : List (MemoryOp Values)) :
    (cells (Machine.run memoryStep mem ops)).Extends (cells mem) :=
  Machine.run_related memoryStep (fun first last => (cells last).Extends (cells first))
    (fun state => Contents.Extends.refl (cells state))
    (fun _ _ _ earlier later => Contents.Extends.trans later earlier)
    cells_memoryStep_extends mem ops

/-- A call has no effect at the addresses it does not target. -/
theorem cells_memoryStep_of_not_targets {mem : Memory Table} {op : MemoryOp Values}
    {ptr : Relocatable} (untouched : ¬op.Targets ptr) :
    cells (memoryStep mem op) ptr = cells mem ptr := by
  cases op with
  | addSegment => rfl
  | insert target value =>
      rw [memoryStep_insert, cells_memoryInsert]
      split
      · exact put_of_ne (Ne.symm untouched)
      · rfl
  | loadData start data =>
      rw [memoryStep_loadData, cells_memoryLoadData]
      apply attempt_snd_of_forall_ne
      intro write member same
      obtain ⟨index, target, found⟩ := mem_loadWrites_iff.mp member
      obtain ⟨bound, -⟩ := List.getElem?_eq_some_iff.mp found
      exact untouched ⟨index, bound, target.trans same⟩

/-- Write-once memory over whole runs: a cell is readable exactly when some accepted
insert found it empty, it then holds the value of the first accepted insert at its
address, and nothing that happens later, elsewhere, or in a rejected insert changes
it. -/
theorem memory_write_once (ops : List (MemoryOp Values)) (ptr : Relocatable) :
    ((∃ value, memoryGet (memoryRun Table ops) ptr = .ok value) ↔
      ∃ call ∈ memoryRunCalls Table ops,
        call.ptr = ptr ∧ call.FoundUnoccupied ∧ call.accepted = true) ∧
    (∀ value, memoryGet (memoryRun Table ops) ptr = .ok value ↔
      firstAccepted (memoryRunCalls Table ops) ptr = some value) ∧
    (∀ call ∈ memoryRunCalls Table ops,
      call.ptr = ptr → call.FoundUnoccupied → call.accepted = true →
        memoryGet (memoryRun Table ops) ptr = .ok call.value) ∧
    (∀ later value, memoryGet (memoryRun Table ops) ptr = .ok value →
      memoryGet (memoryRun Table (ops ++ later)) ptr = .ok value) ∧
    (∀ value error, (memoryInsert (memoryRun Table ops) ptr value).1 = .error error →
      (memoryInsert (memoryRun Table ops) ptr value).2 = memoryRun Table ops) ∧
    (∀ op : MemoryOp Values, ¬op.Targets ptr →
      memoryGet (memoryStep (memoryRun Table ops) op) ptr =
        memoryGet (memoryRun Table ops) ptr) := by
  simp only [memoryGet_eq_ok_iff]
  refine ⟨?_, ?_, ?_, ?_, ?_, ?_⟩
  · simp only [cells_memoryRun_eq_some_iff, InsertCall.Fills]
    constructor
    · rintro ⟨value, call, member, target, empty, accepted, -⟩
      exact ⟨call, member, target, empty, accepted⟩
    · rintro ⟨call, member, target, empty, accepted⟩
      exact ⟨call.value, call, member, target, empty, accepted, rfl⟩
  · intro value
    rw [cells_memoryRun]
  · intro call member target empty accepted
    exact (cells_memoryRun_eq_some_iff ops ptr call.value).mpr
      ⟨call, member, target, empty, accepted, rfl⟩
  · intro later value present
    rw [memoryRun_append]
    exact cells_run_extends _ later ptr value present
  · intro value error failed
    rcases memoryInsert_cases (memoryRun Table ops) ptr value with
      ⟨-, ok, -, -⟩ | ⟨-, rejected⟩
    · rw [ok] at failed
      cases failed
    · rw [rejected]
  · intro op untouched
    exact memoryGet_congr (cells_memoryStep_of_not_targets untouched)

/-- The overwrite attempt of the repository's tests: the second insert at the same
address is rejected and the first value stays. -/
theorem memory_write_once_overwrite :
    memoryGet (memoryRun CellTable
      [.addSegment, .insert ⟨0, 0⟩ (.felt #v[0, 0, 0, 1]),
        .insert ⟨0, 0⟩ (.felt #v[0, 0, 0, 2])]) ⟨0, 0⟩ =
      .ok (.felt #v[0, 0, 0, 1]) :=
  ((memory_write_once _ ⟨0, 0⟩).2.1 _).mpr rfl

end CairoVM
