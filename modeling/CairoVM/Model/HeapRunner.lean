import CairoVM.Model.HeapMemory
import CairoVM.Model.Runner

/-!
# The runner on the heap

The functions of `cairo_runner.c`, `vm.c` and `program.c` at the level of pointers.
The program data and the initial stack are `CC_Array`s of pointers.  The last two
elements of the stack are the addresses of local variables of
`runner_initialize_function_entrypoint`.
-/

namespace CairoVM.OnHeap

open HeapLogic

/-! ## The structures -/

/-- `struct program`. -/
structure HeapProgram where
  main : UInt32
  data : Pointer
  deriving DecidableEq, Repr

/-- `virtual_machine`. -/
structure HeapMachine where
  runContext : RunContext
  memory : HeapMemory
  deriving DecidableEq, Repr

/-- `cairo_runner`. -/
structure HeapRunner where
  program : HeapProgram
  vm : HeapMachine
  programBase : Relocatable
  executionBase : Relocatable
  initialPc : Relocatable
  initialFp : Relocatable
  finalPc : Relocatable
  deriving DecidableEq, Repr

/-- Replace the memory of a runner. -/
def HeapRunner.setMemory (runner : HeapRunner) (memory : HeapMemory) : HeapRunner :=
  { runner with vm := { runner.vm with memory } }

/-! ## The runner -/

section

variable (platform : Platform Content) (collections : Collections)

/-- `program_free`. -/
def programFree (program : HeapProgram) : Prog Unit := do
  collections.ccArrayRemoveAllFree program.data
  collections.ccArrayDestroy program.data

/-- `vm_new`. -/
def vmNew : Prog HeapMachine := do
  let memory ← memoryNew collections
  pure { runContext := ⟨⟨0, 0⟩, ⟨0, 0⟩, ⟨0, 0⟩⟩, memory }

/-- `runner_new`. -/
def runnerNew (program : HeapProgram) : Prog HeapRunner := do
  let vm ← vmNew collections
  pure {
    program
    vm
    programBase := ⟨0, 0⟩
    executionBase := ⟨0, 0⟩
    initialPc := ⟨0, 0⟩
    initialFp := ⟨0, 0⟩
    finalPc := ⟨0, 0⟩ }

/-- `runner_free`. -/
def runnerFree (runner : HeapRunner) : Prog Unit := do
  memoryFree collections runner.vm.memory
  programFree collections runner.program

/-- `runner_initialize_segments`. -/
def runnerInitializeSegments (runner : HeapRunner) : HeapRunner :=
  -- Program Segment
  let (programBase, memory) := memoryAddSegment runner.vm.memory
  -- Execution Segment
  let (executionBase, memory) := memoryAddSegment memory
  { runner.setMemory memory with programBase, executionBase }

/-- `runner_initialize_state`. -/
def runnerInitializeState (runner : HeapRunner) (entrypoint : UInt32) (stack : Pointer) :
    Prog HeapRunner := do
  let initialPc :=
    { runner.programBase with offset := runner.programBase.offset + entrypoint }
  let _ ← memoryLoadData platform collections runner.vm.memory runner.programBase
    runner.program.data
  let _ ← memoryLoadData platform collections runner.vm.memory runner.executionBase stack
  pure { runner with initialPc }

/-- `runner_initialize_function_entrypoint`. -/
def runnerInitializeFunctionEntrypoint (runner : HeapRunner) (entrypoint : UInt32)
    (stack : Pointer) (returnFp : Relocatable) : Prog (Relocatable × HeapRunner) :=
  let (endPtr, memory) := memoryAddSegment runner.vm.memory
  withLocal platform (.maybeRelocatable (.relocatable returnFp)) fun returnFpMr =>
    withLocal platform (.maybeRelocatable (.relocatable endPtr)) fun endMr => do
      let _ ← collections.ccArrayAdd stack returnFpMr
      let _ ← collections.ccArrayAdd stack endMr
      let size ← collections.ccArraySize stack
      let initialFp : Relocatable :=
        ⟨runner.executionBase.segmentIndex, UInt32.ofNat size⟩
      let runner ← runnerInitializeState platform collections
        { runner.setMemory memory with initialFp } entrypoint stack
      pure (endPtr, { runner with finalPc := endPtr })

/-- `runner_initialize_main_entrypoint`. -/
def runnerInitializeMainEntrypoint (runner : HeapRunner) :
    Prog (Relocatable × HeapRunner) := do
  let (_, stack) ← collections.ccArrayNew .indeterminate
  let (returnFp, memory) := memoryAddSegment runner.vm.memory
  let (endPtr, runner) ← runnerInitializeFunctionEntrypoint platform collections
    (runner.setMemory memory) runner.program.main stack returnFp
  collections.ccArrayDestroy stack
  pure (endPtr, runner)

/-- `runner_initialize_vm`. -/
def runnerInitializeVm (runner : HeapRunner) : HeapRunner :=
  let runContext : RunContext :=
    { ap := runner.initialFp, fp := runner.initialFp, pc := runner.initialPc }
  { runner with vm := { runner.vm with runContext } }

/-- `runner_initialize`. -/
def runnerInitialize (runner : HeapRunner) : Prog (Relocatable × HeapRunner) := do
  let runner := runnerInitializeSegments runner
  let (endPtr, runner) ← runnerInitializeMainEntrypoint platform collections runner
  pure (endPtr, runnerInitializeVm runner)

/-! ## Sessions -/

/-- Answer a call. -/
def runnerPerform (runner : HeapRunner) :
    SessionCall Pointer → Prog (RunnerResponse × HeapRunner)
  | .initializeRunner => do
      let (endPtr, runner) ← runnerInitialize platform collections runner
      pure (.endPtr endPtr, runner)
  | .entry .initializeSegments => pure (.done, runnerInitializeSegments runner)
  | .entry .mainEntrypoint => do
      let (endPtr, runner) ← runnerInitializeMainEntrypoint platform collections runner
      pure (.endPtr endPtr, runner)
  | .memory call => do
      let (response, memory) ← memoryPerform platform collections runner.vm.memory call
      pure (.memory response, runner.setMemory memory)

/-- Answer calls in order. -/
def runnerPerformAll (runner : HeapRunner) :
    List (SessionCall Pointer) → Prog (List RunnerResponse × HeapRunner)
  | [] => pure ([], runner)
  | call :: calls => do
      let (response, runner) ← runnerPerform platform collections runner call
      let (responses, runner) ← runnerPerformAll runner calls
      pure (response :: responses, runner)

/-- The life of a runner: it takes over a program, is used, and is freed together with
the program.  The registers are those it has at the end. -/
def runnerSession (program : HeapProgram) (calls : List (SessionCall Pointer)) :
    Prog (List RunnerResponse × HeapRunner) := do
  let runner ← runnerNew collections program
  let (responses, runner) ← runnerPerformAll platform collections runner calls
  runnerFree collections runner
  pure (responses, runner)

/-- What the functions called in a session with a function return, and the runner at the
end. -/
structure FunctionSession where
  responses : List RunnerResponse
  endPtr : Relocatable
  laterResponses : List RunnerResponse
  runner : HeapRunner

/-- The life of a runner that enters a function between other calls.  The arguments are on
a stack of the caller. -/
def functionSession (program : HeapProgram) (calls : List (SessionCall Pointer))
    (entrypoint : UInt32) (stack : Pointer) (returnFp : Relocatable)
    (later : List (SessionCall Pointer)) : Prog FunctionSession := do
  let runner ← runnerNew collections program
  let (responses, runner) ← runnerPerformAll platform collections runner calls
  let (endPtr, runner) ← runnerInitializeFunctionEntrypoint platform collections runner
    entrypoint stack returnFp
  let (laterResponses, runner) ← runnerPerformAll platform collections runner later
  runnerFree collections runner
  pure { responses, endPtr, laterResponses, runner }

end
end CairoVM.OnHeap
