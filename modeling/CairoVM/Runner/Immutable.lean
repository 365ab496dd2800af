import CairoVM.Memory.History
import CairoVM.Memory.Store
import CairoVM.Runner.Entrypoint

/-!
# The runner and its memory

A runner changes its memory by calling the functions of the memory, and in no other way.
So what holds of every run of the memory holds of every run of a runner: no function of
the runner rewrites a cell, not even a load whose result is discarded.
-/

namespace CairoVM

open WriteOnce

variable {Table : Type} [CCHashTable Table Relocatable MaybeRelocatable]
  {Array : Type} [CCArray Array MaybeRelocatable]

/-! ## The calls of the memory -/

section

omit [CCHashTable Table Relocatable MaybeRelocatable]

/-- The memory calls of `runner_initialize_function_entrypoint` and of the functions that
it calls, when the segment counter has the given value. -/
def functionEntrypointOps (runner : CairoRunner Table Array) (numSegments : UInt32)
    (stack : Values) (returnFp : Relocatable) : List (MemoryOp Values) :=
  [.addSegment, .loadData runner.programBase (CCArray.iter runner.program.data),
    .loadData runner.executionBase (entrypointFrame stack returnFp ⟨numSegments, 0⟩)]

/-- The memory calls of `runner_initialize_main_entrypoint`. -/
def mainEntrypointOps (runner : CairoRunner Table Array) (numSegments : UInt32) :
    List (MemoryOp Values) :=
  .addSegment :: functionEntrypointOps runner (numSegments + 1) [] ⟨numSegments, 0⟩

/-- The memory calls of a function that `runner_initialize` is made of. -/
def EntrypointOp.memoryOps (runner : CairoRunner Table Array) :
    EntrypointOp Array → List (MemoryOp Values)
  | .initializeSegments => [.addSegment, .addSegment]
  | .mainEntrypoint => mainEntrypointOps runner runner.vm.memory.numSegments
  | .functionEntrypoint _ stack returnFp =>
      functionEntrypointOps runner runner.vm.memory.numSegments (CCArray.iter stack) returnFp

/-- The memory calls of a call on a runner. -/
def RunnerCall.memoryOps (runner : CairoRunner Table Array) :
    RunnerOp Array → List (MemoryOp Values)
  | .initializeRunner =>
      .addSegment :: .addSegment :: EntrypointOp.mainEntrypoint.memoryOps
        (runnerInitializeSegments runner)
  | .entry op => op.memoryOps runner
  | .memory op => [op]

end

variable [LawfulCCArray Array]

theorem memory_functionEntrypoint (runner : CairoRunner Table Array) (entrypoint : UInt32)
    (stack : Array) (returnFp : Relocatable) :
    (runnerInitializeFunctionEntrypoint runner entrypoint stack returnFp).runner.vm.memory =
      Machine.run memoryStep runner.vm.memory
        (functionEntrypointOps runner runner.vm.memory.numSegments (CCArray.iter stack)
          returnFp) := by
  rw [functionEntrypointOps,
    ← iter_entrypointFrame stack returnFp ⟨runner.vm.memory.numSegments, 0⟩]
  rfl

theorem memory_mainEntrypoint (runner : CairoRunner Table Array) :
    (runnerInitializeMainEntrypoint runner).runner.vm.memory =
      Machine.run memoryStep runner.vm.memory
        (mainEntrypointOps runner runner.vm.memory.numSegments) := by
  have called := memory_functionEntrypoint
    (runner.setMemory (memoryAddSegment runner.vm.memory).2) runner.program.main
    CCArray.new ⟨runner.vm.memory.numSegments, 0⟩
  rw [LawfulCCArray.iter_new] at called
  exact called

theorem memory_runnerStep (runner : CairoRunner Table Array) (op : RunnerOp Array) :
    (runnerStep runner op).vm.memory =
      Machine.run memoryStep runner.vm.memory (op.memoryOps runner) := by
  cases op with
  | initializeRunner => exact memory_mainEntrypoint (runnerInitializeSegments runner)
  | entry op =>
      cases op with
      | initializeSegments => rfl
      | mainEntrypoint => exact memory_mainEntrypoint runner
      | functionEntrypoint entrypoint stack returnFp =>
          exact memory_functionEntrypoint runner entrypoint stack returnFp
  | memory op => rfl

/-- The memory calls of a sequence of calls on a runner, in order. -/
def runnerMemoryOps (runner : CairoRunner Table Array) (ops : List (RunnerOp Array)) :
    List (MemoryOp Values) :=
  Machine.log runnerStep (fun runner op => op.memoryOps runner) runner ops

/-- The memory of a runner runs on its own, on the calls that the runner makes. -/
theorem memory_run_runnerStep (runner : CairoRunner Table Array)
    (ops : List (RunnerOp Array)) :
    (Machine.run runnerStep runner ops).vm.memory =
      Machine.run memoryStep runner.vm.memory (runnerMemoryOps runner ops) :=
  Machine.project_run runnerStep memoryStep (fun runner => runner.vm.memory)
    (fun runner op => op.memoryOps runner) memory_runnerStep runner ops

/-! ## No call rewrites a cell -/

variable [LawfulCCHashTable Table memoryConf]

/-- Once a cell of a runner's memory has been read, every later read returns the same
value, whatever the runner does in between; a later insert of another value is refused,
and no insert at the cell changes the memory. -/
theorem runnerRun_immutable (program : Program Array) (before later : List (RunnerOp Array))
    {ptr : Relocatable} {value : MaybeRelocatable}
    (found : memoryGet (runnerRun Table program before).vm.memory ptr = .ok value) :
    memoryGet (runnerRun Table program (before ++ later)).vm.memory ptr = .ok value ∧
    ∀ other,
      (other ≠ value →
        (memoryInsert (runnerRun Table program (before ++ later)).vm.memory ptr other).1 =
          .error .insert) ∧
      (memoryInsert (runnerRun Table program (before ++ later)).vm.memory ptr other).2.store =
        (runnerRun Table program (before ++ later)).vm.memory.store := by
  have still : memoryGet (runnerRun Table program (before ++ later)).vm.memory ptr =
      .ok value := by
    rw [memoryGet_eq_ok_iff] at found ⊢
    have split : runnerRun Table program (before ++ later) =
        Machine.run runnerStep (runnerRun Table program before) later :=
      Machine.run_append runnerStep (runnerNew Table program) before later
    rw [split, memory_run_runnerStep]
    exact cells_run_extends _ _ ptr value found
  refine ⟨still, fun other => ?_⟩
  rw [memoryGet_eq_ok_iff] at still
  rcases memoryInsert_cases (runnerRun Table program (before ++ later)).vm.memory ptr
      other with
    ⟨accepted, -, counter, written⟩ | ⟨-, failed⟩
  · obtain rfl : value = other := accepted.2 value still
    refine ⟨fun different => absurd rfl different, ?_⟩
    rw [Memory.store, Memory.store, counter, written, put_of_eq_some still]
  · rw [failed]
    exact ⟨fun _ => rfl, rfl⟩

/-- A cell of the program segment, after another initialization. -/
theorem runnerRun_immutable_program_word :
    memoryGet (runnerRun CellTable (⟨0, [.relocatable ⟨7, 7⟩]⟩ : Program Values)
      ([.initializeRunner] ++ [.initializeRunner,
        .memory (.insert ⟨0, 0⟩ (.relocatable ⟨8, 8⟩))])).vm.memory ⟨0, 0⟩ =
      .ok (.relocatable ⟨7, 7⟩) :=
  (runnerRun_immutable (⟨0, [.relocatable ⟨7, 7⟩]⟩ : Program Values) [.initializeRunner]
    [.initializeRunner, .memory (.insert ⟨0, 0⟩ (.relocatable ⟨8, 8⟩))] rfl).1

end CairoVM
