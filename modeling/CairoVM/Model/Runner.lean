import CairoVM.Model.Memory

/-!
# The runner

The data of `program.h`, `run_context.h`, `vm.h` and `cairo_runner.h`, and the
initialization functions of `cairo_runner.c`.

`runner_initialize_state` discards the results of its two `memory_load_data` calls.
The model keeps them beside the runner, so that the discarded errors can be talked
about; nothing in the model reads them.
-/

namespace CairoVM

/-- `struct program`. -/
structure Program (Array : Type) where
  main : UInt32
  data : Array
  deriving DecidableEq, Repr

/-- `run_context`. -/
structure RunContext where
  pc : Relocatable
  ap : Relocatable
  fp : Relocatable
  deriving DecidableEq, Repr

/-- `virtual_machine`. -/
structure VirtualMachine (Table : Type) where
  runContext : RunContext
  memory : Memory Table

/-- `cairo_runner`. -/
structure CairoRunner (Table Array : Type) where
  program : Program Array
  vm : VirtualMachine Table
  programBase : Relocatable
  executionBase : Relocatable
  initialPc : Relocatable
  initialFp : Relocatable
  finalPc : Relocatable

/-- The results that `runner_initialize_state` discards. -/
structure StateLoads where
  program : Except MemoryError Relocatable
  execution : Except MemoryError Relocatable

/-- What an entrypoint initialization leaves: the returned end pointer, the
discarded load results, and the runner. -/
structure EntrypointOutcome (Table Array : Type) where
  endPtr : Relocatable
  loads : StateLoads
  runner : CairoRunner Table Array

variable {Table : Type} [CCHashTable Table Relocatable MaybeRelocatable]
  {Array : Type} [CCArray Array MaybeRelocatable]

/-- `vm_new`. -/
def vmNew (Table : Type) [CCHashTable Table Relocatable MaybeRelocatable] :
    VirtualMachine Table where
  runContext := ⟨⟨0, 0⟩, ⟨0, 0⟩, ⟨0, 0⟩⟩
  memory := memoryNew Table

/-- `runner_new`. -/
def runnerNew (Table : Type) [CCHashTable Table Relocatable MaybeRelocatable]
    (program : Program Array) : CairoRunner Table Array where
  program := program
  vm := vmNew Table
  programBase := ⟨0, 0⟩
  executionBase := ⟨0, 0⟩
  initialPc := ⟨0, 0⟩
  initialFp := ⟨0, 0⟩
  finalPc := ⟨0, 0⟩

omit [CCHashTable Table Relocatable MaybeRelocatable] [CCArray Array MaybeRelocatable] in
/-- Replace the memory of a runner. -/
def CairoRunner.setMemory (runner : CairoRunner Table Array) (memory : Memory Table) :
    CairoRunner Table Array :=
  { runner with vm := { runner.vm with memory } }

/-- `runner_initialize_segments`. -/
def runnerInitializeSegments (runner : CairoRunner Table Array) : CairoRunner Table Array :=
  -- Program Segment
  let (programBase, memory) := memoryAddSegment runner.vm.memory
  -- Execution Segment
  let (executionBase, memory) := memoryAddSegment memory
  { runner.setMemory memory with programBase, executionBase }

/-- `runner_initialize_state`. -/
def runnerInitializeState (runner : CairoRunner Table Array) (entrypoint : UInt32)
    (stack : Array) : StateLoads × CairoRunner Table Array :=
  let initialPc :=
    { runner.programBase with offset := runner.programBase.offset + entrypoint }
  let (program, memory) :=
    memoryLoadData runner.vm.memory runner.programBase
      (CCArray.iter runner.program.data)
  let (execution, memory) :=
    memoryLoadData memory runner.executionBase (CCArray.iter stack)
  (⟨program, execution⟩, { runner.setMemory memory with initialPc })

/-- `runner_initialize_function_entrypoint`.  The caller's `stack` array keeps two
pointers into the finished call afterwards, so its new contents are not part of the
outcome. -/
def runnerInitializeFunctionEntrypoint (runner : CairoRunner Table Array)
    (entrypoint : UInt32) (stack : Array) (returnFp : Relocatable) :
    EntrypointOutcome Table Array :=
  let (endPtr, memory) := memoryAddSegment runner.vm.memory
  let (_, stack) := CCArray.add stack (.relocatable returnFp)
  let (_, stack) := CCArray.add stack (.relocatable endPtr)
  let initialFp : Relocatable :=
    ⟨runner.executionBase.segmentIndex, UInt32.ofNat (CCArray.size stack)⟩
  let (loads, runner) :=
    runnerInitializeState { runner.setMemory memory with initialFp } entrypoint stack
  { endPtr, loads, runner := { runner with finalPc := endPtr } }

/-- `runner_initialize_main_entrypoint`. -/
def runnerInitializeMainEntrypoint (runner : CairoRunner Table Array) :
    EntrypointOutcome Table Array :=
  let stack := CCArray.new
  let (returnFp, memory) := memoryAddSegment runner.vm.memory
  runnerInitializeFunctionEntrypoint (runner.setMemory memory) runner.program.main
    stack returnFp

omit [CCHashTable Table Relocatable MaybeRelocatable] [CCArray Array MaybeRelocatable] in
/-- `runner_initialize_vm`. -/
def runnerInitializeVm (runner : CairoRunner Table Array) : CairoRunner Table Array :=
  let runContext : RunContext :=
    { ap := runner.initialFp, fp := runner.initialFp, pc := runner.initialPc }
  { runner with vm := { runner.vm with runContext } }

/-- `runner_initialize`. -/
def runnerInitialize (runner : CairoRunner Table Array) : EntrypointOutcome Table Array :=
  let runner := runnerInitializeSegments runner
  let outcome := runnerInitializeMainEntrypoint runner
  { outcome with runner := runnerInitializeVm outcome.runner }

/-! ## Runs -/

/-- A call of one of the functions that `runner_initialize` is made of.  An
entrypoint call gets a fresh stack array. -/
inductive EntrypointOp (Stack : Type) where
  | initializeSegments
  | mainEntrypoint
  | functionEntrypoint (entrypoint : UInt32) (stack : Stack) (returnFp : Relocatable)
  deriving DecidableEq, Repr

/-- The return frame pointer and the outcome of an entrypoint call.  The main
entrypoint makes its own return frame pointer. -/
def EntrypointOp.outcome? (runner : CairoRunner Table Array) :
    EntrypointOp Array → Option (Relocatable × EntrypointOutcome Table Array)
  | .initializeSegments => none
  | .mainEntrypoint =>
      some ((memoryAddSegment runner.vm.memory).1, runnerInitializeMainEntrypoint runner)
  | .functionEntrypoint entrypoint stack returnFp =>
      some (returnFp,
        runnerInitializeFunctionEntrypoint runner entrypoint stack returnFp)

/-- The runner after such a call. -/
def entrypointStep (runner : CairoRunner Table Array) :
    EntrypointOp Array → CairoRunner Table Array
  | .initializeSegments => runnerInitializeSegments runner
  | .mainEntrypoint => (runnerInitializeMainEntrypoint runner).runner
  | .functionEntrypoint entrypoint stack returnFp =>
      (runnerInitializeFunctionEntrypoint runner entrypoint stack returnFp).runner

/-- A call on a runner, through its own functions or through its memory.  `Stack` is the
type of the stacks that are passed, `Call` that of the calls on the memory. -/
inductive RunnerCall (Stack Call : Type) where
  | initializeRunner
  | entry (op : EntrypointOp Stack)
  | memory (call : Call)
  deriving DecidableEq, Repr

/-- A call that changes a runner. -/
abbrev RunnerOp (Array : Type) := RunnerCall Array (MemoryOp Values)

/-- A call that passes no stack, and whose result the caller looks at. -/
abbrev SessionCall (Data : Type) := RunnerCall Empty (MemoryCall Data)

/-- The runner after a call. -/
def runnerStep (runner : CairoRunner Table Array) : RunnerOp Array → CairoRunner Table Array
  | .initializeRunner => (runnerInitialize runner).runner
  | .entry op => entrypointStep runner op
  | .memory op => runner.setMemory (memoryStep runner.vm.memory op)

/-- The runner after a sequence of calls on a new runner. -/
def runnerRun (Table : Type) [CCHashTable Table Relocatable MaybeRelocatable]
    (program : Program Array) (ops : List (RunnerOp Array)) : CairoRunner Table Array :=
  Machine.run runnerStep (runnerNew Table program) ops

section

omit [CCArray Array MaybeRelocatable]

/-- The number of segments a call creates. -/
def EntrypointOp.segments : EntrypointOp Array → Nat
  | .initializeSegments => 2
  | .mainEntrypoint => 2
  | .functionEntrypoint _ _ _ => 1

/-- The number of segments a call creates. -/
def RunnerCall.segments : RunnerOp Array → Nat
  | .initializeRunner => 4
  | .entry op => op.segments
  | .memory .addSegment => 1
  | .memory (.write _) => 0

/-- The number of segments a sequence of calls creates. -/
def segmentsCreated (ops : List (RunnerOp Array)) : Nat :=
  (ops.map RunnerCall.segments).sum

end

/-! ## Calls and their responses -/

/-- What a call returns. -/
inductive RunnerResponse where
  | done
  | endPtr (ptr : Relocatable)
  | memory (response : MemoryResponse)

/-- Answer a call. -/
def runnerPerform (runner : CairoRunner Table Array) :
    SessionCall Values → RunnerResponse × CairoRunner Table Array
  | .initializeRunner =>
      let outcome := runnerInitialize runner
      (.endPtr outcome.endPtr, outcome.runner)
  | .entry .initializeSegments => (.done, runnerInitializeSegments runner)
  | .entry .mainEntrypoint =>
      let outcome := runnerInitializeMainEntrypoint runner
      (.endPtr outcome.endPtr, outcome.runner)
  | .memory call =>
      let (response, memory) := memoryPerform runner.vm.memory call
      (.memory response, runner.setMemory memory)

/-- The responses to a sequence of calls, in order. -/
def runnerResponses (runner : CairoRunner Table Array)
    (calls : List (SessionCall Values)) : List RunnerResponse :=
  Machine.log (fun runner call => (runnerPerform runner call).2)
    (fun runner call => [(runnerPerform runner call).1]) runner calls

/-- The runner that a sequence of calls leaves behind. -/
def runnerAfter (runner : CairoRunner Table Array)
    (calls : List (SessionCall Values)) : CairoRunner Table Array :=
  Machine.run (fun runner call => (runnerPerform runner call).2) runner calls

end CairoVM
