import CairoVM.Runner.Initialize

/-!
# The frame of a called function

`runner_initialize_function_entrypoint` pushes the saved frame pointer and the end
pointer on the stack of its caller and loads the result as the execution segment.
The initial frame pointer is the size of that stack, so the two cells below it are
the ones that `ret` reads.
-/

namespace CairoVM

variable {Table : Type} [CCHashTable Table Relocatable MaybeRelocatable]
  {Array : Type} [CCArray Array MaybeRelocatable]

/-- The runner `before` has been given segments, and a function was called in them
with a stack and a return frame pointer. -/
structure FunctionCalled (before : CairoRunner Table Array) (entrypoint : UInt32)
    (stack : Values) (returnFp : Relocatable)
    (outcome : EntrypointOutcome Table Array) : Prop where
  programLoad : ∃ endPtr, outcome.loads.program = .ok endPtr
  executionLoad : ∃ endPtr, outcome.loads.execution = .ok endPtr
  numSegments : outcome.runner.vm.memory.numSegments.toNat =
    before.vm.memory.numSegments.toNat + 3
  program_eq : outcome.runner.program = before.program
  runContext_eq : outcome.runner.vm.runContext = before.vm.runContext
  programStart : outcome.runner.programBase.offset = 0
  executionStart : outcome.runner.executionBase.offset = 0
  programIndex : outcome.runner.programBase.segmentIndex.toNat =
    before.vm.memory.numSegments.toNat
  executionIndex : outcome.runner.executionBase.segmentIndex.toNat =
    before.vm.memory.numSegments.toNat + 1
  endIndex : outcome.endPtr.segmentIndex.toNat =
    before.vm.memory.numSegments.toNat + 2
  endStart : outcome.endPtr.offset = 0
  finalPc_eq : outcome.runner.finalPc = outcome.endPtr
  initialPc_eq : outcome.runner.initialPc =
    ⟨outcome.runner.programBase.segmentIndex, entrypoint⟩
  fpSegment : outcome.runner.initialFp.segmentIndex =
    outcome.runner.executionBase.segmentIndex
  fpOffset : outcome.runner.initialFp.offset.toNat = stack.length + 2
  executionCells : ∀ offset, memoryGet outcome.runner.vm.memory
      ⟨outcome.runner.executionBase.segmentIndex, offset⟩ =
    if inStack : offset.toNat < stack.length then .ok stack[offset.toNat]
    else if offset.toNat = stack.length then .ok (.relocatable returnFp)
    else if offset.toNat = stack.length + 1 then .ok (.relocatable outcome.endPtr)
    else .error .get
  savedFp : memoryGet outcome.runner.vm.memory
      { outcome.runner.initialFp with offset := outcome.runner.initialFp.offset - 2 } =
    .ok (.relocatable returnFp)
  returnPc : memoryGet outcome.runner.vm.memory
      { outcome.runner.initialFp with offset := outcome.runner.initialFp.offset - 1 } =
    .ok (.relocatable outcome.runner.finalPc)
  programCells : ∀ offset, memoryGet outcome.runner.vm.memory
      ⟨outcome.runner.programBase.segmentIndex, offset⟩ =
    (CCArray.iter before.program.data)[offset.toNat]?.elim (.error .get) .ok
  endNew : ∀ offset,
    memoryGet before.vm.memory ⟨outcome.endPtr.segmentIndex, offset⟩ = .error .get
  endEmpty : ∀ offset, memoryGet outcome.runner.vm.memory
    ⟨outcome.endPtr.segmentIndex, offset⟩ = .error .get
  kept : ∀ ptr value, memoryGet before.vm.memory ptr = .ok value →
    memoryGet outcome.runner.vm.memory ptr = .ok value
  otherCells : ∀ ptr : Relocatable,
    ptr.segmentIndex ≠ outcome.runner.programBase.segmentIndex →
    ptr.segmentIndex ≠ outcome.runner.executionBase.segmentIndex →
      memoryGet outcome.runner.vm.memory ptr = memoryGet before.vm.memory ptr

variable [LawfulCCHashTable Table memoryConf] [LawfulCCArray Array]

/-- A call in new segments, on a runner with room for three more of them. -/
theorem functionCalled_of_within {created : Nat} {runner : CairoRunner Table Array}
    (within : Within created runner.vm.memory) (noWrap : created + 3 < 2 ^ 32)
    (small : (CCArray.iter runner.program.data).length < 2 ^ 32) (entrypoint : UInt32)
    {stack : Array} (short : (CCArray.iter stack).length + 2 < 2 ^ 32)
    (returnFp : Relocatable) :
    FunctionCalled runner entrypoint (CCArray.iter stack) returnFp
      (runnerInitializeFunctionEntrypoint (runnerInitializeSegments runner) entrypoint
        stack returnFp) := by
  have fresh := fresh_runnerInitializeSegments within (by omega)
  have called := within.initializeSegments.functionEntrypoint entrypoint stack returnFp
  have numSegments := called.toNat_numSegments noWrap
  obtain ⟨endPtr_eq, finalPc_eq, program_eq, programBase_eq, executionBase_eq,
    initialPc_eq, initialFp_eq⟩ :=
    functionEntrypoint_pointers fresh.toPrepared entrypoint stack returnFp
  obtain ⟨programLoad, executionLoad, stored⟩ :=
    fresh.functionEntrypoint (by omega) small entrypoint short returnFp
  have runContext_eq : (runnerInitializeFunctionEntrypoint
      (runnerInitializeSegments runner) entrypoint stack returnFp).runner.vm.runContext =
        runner.vm.runContext := rfl
  generalize runnerInitializeFunctionEntrypoint (runnerInitializeSegments runner)
    entrypoint stack returnFp = outcome at *
  rw [← programBase_eq] at initialPc_eq
  rw [← executionBase_eq] at initialFp_eq
  rw [← programBase_eq, ← executionBase_eq] at stored
  have first : runner.vm.memory.numSegments.toNat = created :=
    within.toNat_numSegments (by omega)
  obtain ⟨programIndex, executionIndex⟩ :=
    runnerInitializeSegments_indices within (by omega)
  rw [← programBase_eq] at programIndex
  rw [← executionBase_eq] at executionIndex
  have endIndex : outcome.endPtr.segmentIndex.toNat = created + 2 := by
    rw [endPtr_eq]
    exact within.initializeSegments.toNat_numSegments (by omega)
  have notSame : outcome.runner.executionBase.segmentIndex ≠
      outcome.runner.programBase.segmentIndex := by
    intro same
    rw [same] at executionIndex
    omega
  have otherCells : ∀ ptr : Relocatable,
      ptr.segmentIndex ≠ outcome.runner.programBase.segmentIndex →
      ptr.segmentIndex ≠ outcome.runner.executionBase.segmentIndex →
        memoryGet outcome.runner.vm.memory ptr = memoryGet runner.vm.memory ptr := by
    intro ptr notProgram notExecution
    apply memoryGet_congr
    rw [stored, if_neg notProgram, if_neg notExecution]
    rfl
  have frameCells : ∀ offset, cells outcome.runner.vm.memory
      ⟨outcome.runner.executionBase.segmentIndex, offset⟩ =
        (entrypointFrame (CCArray.iter stack) returnFp outcome.endPtr)[offset.toNat]? := by
    intro offset
    rw [stored, if_neg notSame, if_pos rfl]
  have endNew : ∀ offset,
      memoryGet runner.vm.memory ⟨outcome.endPtr.segmentIndex, offset⟩ =
        .error .get := by
    intro offset
    rw [memoryGet_eq_error_iff]
    exact ⟨within.cells_eq_none (by dsimp only; omega), rfl⟩
  obtain ⟨savedFp, returnPc⟩ := getElem?_entrypointFrame_top (CCArray.iter stack) returnFp
    outcome.endPtr
  refine {
    programLoad, executionLoad, program_eq, runContext_eq, finalPc_eq, initialPc_eq,
    otherCells, endNew
    numSegments := by omega
    programStart := by rw [programBase_eq]; rfl
    executionStart := by rw [executionBase_eq]; rfl
    programIndex := programIndex.trans first.symm
    executionIndex := by omega
    endIndex := by omega
    endStart := by rw [endPtr_eq]
    fpSegment := by rw [initialFp_eq]
    fpOffset := by rw [initialFp_eq, UInt32.toNat_ofNat_of_lt' short]
    executionCells := ?_, savedFp := ?_, returnPc := ?_, programCells := ?_,
    endEmpty := ?_, kept := ?_ }
  · intro offset
    rw [memoryGet_eq, frameCells, getElem?_entrypointFrame]
    split
    · rfl
    · split
      · rfl
      · split <;> rfl
  · rw [initialFp_eq]
    dsimp only
    rw [memoryGet_eq_ok_iff, frameCells, toNat_below_frameTop short (by decide)]
    exact savedFp
  · rw [initialFp_eq, finalPc_eq]
    dsimp only
    rw [memoryGet_eq_ok_iff, frameCells, toNat_below_frameTop short (by decide)]
    exact returnPc
  · intro offset
    rw [memoryGet_eq, stored, if_pos rfl]
  · intro offset
    rw [otherCells, endNew]
    · intro same
      rw [same] at endIndex
      omega
    · intro same
      rw [same] at endIndex
      omega
  · intro ptr value present
    have below := within.bounded ptr value (memoryGet_eq_ok_iff.mp present)
    rw [otherCells, present]
    · intro same
      rw [same] at below
      omega
    · intro same
      rw [same] at below
      omega

/-- Whatever was done to a runner before, new segments and a call of a function in
them leave exactly the frame of that call, as long as segment indices do not wrap. -/
theorem functionEntrypoint_frame (program : Program Array) (ops : List (RunnerOp Array))
    (small : (CCArray.iter program.data).length < 2 ^ 32)
    (noWrap : segmentsCreated ops + 3 < 2 ^ 32)
    (entrypoint : UInt32) (stack : Array)
    (short : (CCArray.iter stack).length + 2 < 2 ^ 32) (returnFp : Relocatable) :
    let runner := runnerRun Table program ops
    FunctionCalled runner entrypoint (CCArray.iter stack) returnFp
      (runnerInitializeFunctionEntrypoint (runnerInitializeSegments runner) entrypoint
        stack returnFp) := by
  intro runner
  refine functionCalled_of_within (within_runnerRun program ops) noWrap ?_ entrypoint
    short returnFp
  rw [program_runnerRun]
  exact small

/-- A call with two arguments, on a runner that was initialized before. -/
theorem functionEntrypoint_frame_two_arguments :
    let runner := runnerRun CellTable (⟨0, [.felt #v[0, 0, 0, 7]]⟩ : Program Values)
      [.initializeRunner, .memory (.insert ⟨1, 9⟩ (.relocatable ⟨0, 0⟩))]
    FunctionCalled runner 4 [.felt #v[0, 0, 0, 1], .relocatable ⟨2, 0⟩] ⟨2, 5⟩
      (runnerInitializeFunctionEntrypoint (runnerInitializeSegments runner) 4
        [.felt #v[0, 0, 0, 1], .relocatable ⟨2, 0⟩] ⟨2, 5⟩) :=
  functionEntrypoint_frame _ _ (by decide) (by decide) 4 _ (by decide) ⟨2, 5⟩

end CairoVM
