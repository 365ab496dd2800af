import CairoVM.Runner.Entrypoint

/-!
# The whole initialization of a runner

`runner_initialize` discards the results of its two loads.  On every runner that its
own functions and the memory operations can lead to, neither load fails: the segments
they write to are created by the same call, and a memory never holds a cell of a
segment that has not been created yet.
-/

namespace CairoVM

variable {Table : Type} [CCHashTable Table Relocatable MaybeRelocatable]
  {Array : Type} [CCArray Array MaybeRelocatable]

/-- A prepared runner with nothing in its program and execution segments yet. -/
structure Fresh (program : Program Array) (created : Nat)
    (runner : CairoRunner Table Array) : Prop
    extends Prepared program created runner where
  programEmpty : ∀ offset,
    cells runner.vm.memory ⟨runner.programBase.segmentIndex, offset⟩ = none
  executionEmpty : ∀ offset,
    cells runner.vm.memory ⟨runner.executionBase.segmentIndex, offset⟩ = none

theorem Fresh.addSegment {program : Program Array} {created : Nat}
    {runner : CairoRunner Table Array} (fresh : Fresh program created runner) :
    Fresh program (created + 1)
      (runner.setMemory (memoryAddSegment runner.vm.memory).2) where
  toPrepared := fresh.toPrepared.addSegment
  programEmpty := fresh.programEmpty
  executionEmpty := fresh.executionEmpty

/-- The two segments that `runner_initialize_segments` creates are empty. -/
theorem fresh_runnerInitializeSegments {created : Nat} {runner : CairoRunner Table Array}
    (within : Within created runner.vm.memory) (noWrap : created + 2 ≤ 2 ^ 32) :
    Fresh runner.program (created + 2) (runnerInitializeSegments runner) where
  toPrepared := prepared_runnerInitializeSegments within noWrap
  programEmpty offset := by
    apply within.cells_eq_none
    exact Nat.le_of_eq (runnerInitializeSegments_indices within noWrap).1.symm
  executionEmpty offset := by
    have executionIndex := (runnerInitializeSegments_indices within noWrap).2
    apply within.cells_eq_none
    exact Nat.le_of_succ_le (Nat.le_of_eq executionIndex.symm)

/-! ## Runs of a runner -/

omit [CCArray Array MaybeRelocatable] in
@[simp] theorem segmentsCreated_concat (ops : List (RunnerOp Array)) (op : RunnerOp Array) :
    segmentsCreated (ops ++ [op]) = segmentsCreated ops + op.segments := by
  simp [segmentsCreated]

/-- No call replaces the program. -/
@[simp] theorem program_runnerStep (runner : CairoRunner Table Array) (op : RunnerOp Array) :
    (runnerStep runner op).program = runner.program := by
  cases op with
  | initializeRunner => exact program_runnerInitialize runner
  | entry op =>
      cases op with
      | initializeSegments => rfl
      | mainEntrypoint => exact program_mainEntrypoint runner
      | functionEntrypoint entrypoint stack returnFp => rfl
  | memory op => rfl

@[simp] theorem program_runnerRun (program : Program Array) (ops : List (RunnerOp Array)) :
    (runnerRun Table program ops).program = program :=
  Machine.run_induction runnerStep (runnerNew Table program)
    (fun _ runner => runner.program = program) rfl
    (fun _ _ same => (program_runnerStep _ _).trans same) ops

variable [LawfulCCHashTable Table memoryConf]

namespace Within

variable {created : Nat} {runner : CairoRunner Table Array}

theorem functionEntrypoint (within : Within created runner.vm.memory)
    (entrypoint : UInt32) (stack : Array) (returnFp : Relocatable) :
    Within (created + 1) (runnerInitializeFunctionEntrypoint runner entrypoint stack
      returnFp).runner.vm.memory :=
  (within.addSegment.loadData _ _).loadData _ _

theorem mainEntrypoint (within : Within created runner.vm.memory) :
    Within (created + 2) (runnerInitializeMainEntrypoint runner).runner.vm.memory := by
  have extended : Within (created + 1)
      (runner.setMemory (memoryAddSegment runner.vm.memory).2).vm.memory :=
    within.addSegment
  exact extended.functionEntrypoint _ _ _

omit [LawfulCCHashTable Table memoryConf] [CCArray Array MaybeRelocatable] in
theorem initializeSegments (within : Within created runner.vm.memory) :
    Within (created + 2) (runnerInitializeSegments runner).vm.memory :=
  within.addSegment.addSegment

theorem entrypointStep (within : Within created runner.vm.memory) (op : EntrypointOp Array) :
    Within (created + op.segments) (entrypointStep runner op).vm.memory := by
  cases op with
  | initializeSegments => exact within.initializeSegments
  | mainEntrypoint => exact within.mainEntrypoint
  | functionEntrypoint entrypoint stack returnFp =>
      exact within.functionEntrypoint entrypoint stack returnFp

theorem runnerStep (within : Within created runner.vm.memory) (op : RunnerOp Array) :
    Within (created + op.segments) (runnerStep runner op).vm.memory := by
  cases op with
  | initializeRunner => exact within.initializeSegments.mainEntrypoint
  | entry op => exact within.entrypointStep op
  | memory op =>
      cases op with
      | addSegment => exact within.addSegment
      | insert ptr value => exact within.insert ptr value
      | loadData ptr data => exact within.loadData ptr data

end Within

/-- Whatever is done to a runner, its memory holds no cell outside the segments
created so far. -/
theorem within_runnerRun (program : Program Array) (ops : List (RunnerOp Array)) :
    Within (segmentsCreated ops) (runnerRun Table program ops).vm.memory := by
  refine Machine.run_induction runnerStep (runnerNew Table program)
    (fun ops runner => Within (segmentsCreated ops) runner.vm.memory)
    Within.initially ?_ ops
  intro before op within
  rw [segmentsCreated_concat]
  exact within.runnerStep op

/-! ## An entrypoint call in fresh segments -/

/-- In fresh segments both loads of an entrypoint call succeed, and the segments
hold the program data and the stack frame, and nothing else. -/
theorem Fresh.functionEntrypoint [LawfulCCArray Array] {program : Program Array}
    {created : Nat} {runner : CairoRunner Table Array}
    (fresh : Fresh program created runner)
    (noWrap : created + 1 < 2 ^ 32) (small : (CCArray.iter program.data).length < 2 ^ 32)
    (entrypoint : UInt32) {stack : Array}
    (short : (CCArray.iter stack).length + 2 < 2 ^ 32) (returnFp : Relocatable) :
    let outcome :=
      runnerInitializeFunctionEntrypoint runner entrypoint stack returnFp
    (∃ endPtr, outcome.loads.program = .ok endPtr) ∧
    (∃ endPtr, outcome.loads.execution = .ok endPtr) ∧
    ∀ address, cells outcome.runner.vm.memory address =
      if address.segmentIndex = runner.programBase.segmentIndex then
        (CCArray.iter program.data)[address.offset.toNat]?
      else if address.segmentIndex = runner.executionBase.segmentIndex then
        (entrypointFrame (CCArray.iter stack) returnFp outcome.endPtr)[address.offset.toNat]?
      else cells runner.vm.memory address := by
  intro outcome
  obtain ⟨programLoad, accepted, -, stored⟩ :=
    functionEntrypoint_loads fresh.toPrepared noWrap small entrypoint short returnFp
  have executionLoad : ∃ endPtr, outcome.loads.execution = .ok endPtr := by
    refine accepted.mpr ?_
    intro offset value held found present
    rw [fresh.executionEmpty] at present
    cases present
  refine ⟨programLoad, executionLoad, ?_⟩
  rintro ⟨segment, offset⟩
  apply Option.ext
  intro value
  rw [stored executionLoad]
  split
  · rename_i inProgram
    dsimp only at inProgram
    subst inProgram
    simp [fresh.programEmpty, fresh.distinct]
  · rename_i notProgram
    split
    · rename_i inExecution
      dsimp only at inExecution
      subst inExecution
      simp [fresh.executionEmpty, fresh.distinct.symm, outcome]
    · rename_i notExecution
      dsimp only at notProgram notExecution
      simp [notProgram, notExecution]

/-! ## `runner_initialize` -/

/-- A runner that was set up from the runner `before`, with four new segments that
start at the index `first`. -/
structure InitializedFrom (before : CairoRunner Table Array) (first : UInt32)
    (outcome : EntrypointOutcome Table Array) : Prop where
  programLoad : ∃ endPtr, outcome.loads.program = .ok endPtr
  executionLoad : ∃ endPtr, outcome.loads.execution = .ok endPtr
  numSegments : outcome.runner.vm.memory.numSegments.toNat = first.toNat + 4
  program_eq : outcome.runner.program = before.program
  programBase_eq : outcome.runner.programBase = ⟨first, 0⟩
  executionBase_eq : outcome.runner.executionBase = ⟨first + 1, 0⟩
  endPtr_eq : outcome.endPtr = ⟨first + 3, 0⟩
  finalPc_eq : outcome.runner.finalPc = ⟨first + 3, 0⟩
  initialPc_eq : outcome.runner.initialPc = ⟨first, before.program.main⟩
  pc_eq : outcome.runner.vm.runContext.pc = ⟨first, before.program.main⟩
  initialFp_eq : outcome.runner.initialFp = ⟨first + 1, 2⟩
  ap_eq : outcome.runner.vm.runContext.ap = ⟨first + 1, 2⟩
  fp_eq : outcome.runner.vm.runContext.fp = ⟨first + 1, 2⟩
  programCells : ∀ offset, memoryGet outcome.runner.vm.memory ⟨first, offset⟩ =
    (CCArray.iter before.program.data)[offset.toNat]?.elim (.error .get) .ok
  executionCells : ∀ offset, memoryGet outcome.runner.vm.memory ⟨first + 1, offset⟩ =
    if offset = 0 then .ok (.relocatable ⟨first + 2, 0⟩)
    else if offset = 1 then .ok (.relocatable ⟨first + 3, 0⟩)
    else .error .get
  returnCells : ∀ offset,
    memoryGet outcome.runner.vm.memory ⟨first + 2, offset⟩ = .error .get
  endCells : ∀ offset,
    memoryGet outcome.runner.vm.memory ⟨first + 3, offset⟩ = .error .get
  otherCells : ∀ ptr, ptr.segmentIndex ≠ first → ptr.segmentIndex ≠ first + 1 →
    memoryGet outcome.runner.vm.memory ptr = memoryGet before.vm.memory ptr

/-- The stack frame of the main entrypoint, cell by cell. -/
theorem getElem?_mainFrame (returnFp endPtr : Relocatable) (offset : UInt32) :
    (entrypointFrame [] returnFp endPtr)[offset.toNat]? =
      if offset = 0 then some (.relocatable returnFp)
      else if offset = 1 then some (.relocatable endPtr)
      else none := by
  have zero : offset = 0 ↔ offset.toNat = 0 := UInt32.toNat_inj.symm
  have one : offset = 1 ↔ offset.toNat = 1 := UInt32.toNat_inj.symm
  rw [getElem?_entrypointFrame, dif_neg (List.length_nil ▸ Nat.not_lt_zero _)]
  simp only [zero, one]
  rfl

/-- The segments of `runner_initialize` are numbered from the counter on. -/
theorem counter_offsets (first : UInt32) :
    first + 1 + 1 = first + 2 ∧ first + 1 + 1 + 1 = first + 3 := by
  have third : first + 1 + 1 = first + 2 := UInt32.add_assoc first 1 1
  refine ⟨third, ?_⟩
  rw [third]
  exact UInt32.add_assoc first 2 1

omit [LawfulCCHashTable Table memoryConf] in
/-- The pointers and registers that `runner_initialize` computes from the segment
counter. -/
theorem runnerInitialize_pointers [LawfulCCArray Array] (runner : CairoRunner Table Array) :
    let first := runner.vm.memory.numSegments
    let outcome := runnerInitialize runner
    outcome.endPtr = ⟨first + 3, 0⟩ ∧
      outcome.runner.program = runner.program ∧
      outcome.runner.programBase = ⟨first, 0⟩ ∧
      outcome.runner.executionBase = ⟨first + 1, 0⟩ ∧
      outcome.runner.finalPc = outcome.endPtr ∧
      outcome.runner.initialPc = ⟨first, runner.program.main⟩ ∧
      outcome.runner.initialFp = ⟨first + 1, 2⟩ ∧
      outcome.runner.vm.runContext =
        ⟨outcome.runner.initialPc, outcome.runner.initialFp,
          outcome.runner.initialFp⟩ := by
  intro first outcome
  have endPtr : outcome.endPtr = ⟨first + 1 + 1 + 1, 0⟩ := rfl
  have initialPc : outcome.runner.initialPc = ⟨first, 0 + runner.program.main⟩ := rfl
  rw [(counter_offsets first).2] at endPtr
  rw [UInt32.zero_add] at initialPc
  have size := size_entrypointFrame (CCArray.new : Array) ⟨first + 1 + 1, 0⟩
    ⟨first + 1 + 1 + 1, 0⟩
  rw [LawfulCCArray.iter_new, List.length_nil] at size
  have initialFp : outcome.runner.initialFp = ⟨first + 1, 2⟩ :=
    congrArg (fun size => Relocatable.mk (first + 1) (UInt32.ofNat size)) size
  exact ⟨endPtr, program_runnerInitialize runner, rfl, rfl, rfl, initialPc, initialFp, rfl⟩

/-- The loads of `runner_initialize` on a runner with room for four more segments,
and the memory they leave. -/
theorem runnerInitialize_loads [LawfulCCArray Array] {created : Nat}
    {runner : CairoRunner Table Array}
    (within : Within created runner.vm.memory) (noWrap : created + 4 < 2 ^ 32)
    (small : (CCArray.iter runner.program.data).length < 2 ^ 32) :
    let first := runner.vm.memory.numSegments
    let outcome := runnerInitialize runner
    (∃ endPtr, outcome.loads.program = .ok endPtr) ∧
    (∃ endPtr, outcome.loads.execution = .ok endPtr) ∧
    ∀ address, cells outcome.runner.vm.memory address =
      if address.segmentIndex = first then
        (CCArray.iter runner.program.data)[address.offset.toNat]?
      else if address.segmentIndex = first + 1 then
        (entrypointFrame [] ⟨first + 2, 0⟩ ⟨first + 3, 0⟩)[address.offset.toNat]?
      else cells runner.vm.memory address := by
  intro first outcome
  rw [← (counter_offsets first).1, ← (counter_offsets first).2]
  have fresh := (fresh_runnerInitializeSegments within (by omega)).addSegment
  have noStack : CCArray.iter (CCArray.new : Array) = [] := LawfulCCArray.iter_new
  rw [← noStack]
  refine fresh.functionEntrypoint (by omega) small runner.program.main ?_ _
  rw [noStack]
  decide

/-- Initialization of a runner that has room for four more segments. -/
theorem initializedFrom_runnerInitialize [LawfulCCArray Array] {created : Nat}
    {runner : CairoRunner Table Array}
    (within : Within created runner.vm.memory) (noWrap : created + 4 < 2 ^ 32)
    (small : (CCArray.iter runner.program.data).length < 2 ^ 32) :
    InitializedFrom runner runner.vm.memory.numSegments (runnerInitialize runner) := by
  obtain ⟨programLoad, executionLoad, stored⟩ :=
    runnerInitialize_loads within noWrap small
  obtain ⟨endPtr, program, programBase, executionBase, finalPc, initialPc, initialFp,
    runContext⟩ := runnerInitialize_pointers runner
  have before : runner.vm.memory.numSegments.toNat = created :=
    within.toNat_numSegments (by omega)
  have after : (runnerInitialize runner).runner.vm.memory.numSegments.toNat =
      created + 4 :=
    (within.initializeSegments.mainEntrypoint).toNat_numSegments noWrap
  -- The return and end segments are new and neither load writes to them.
  have empty : ∀ (count offset : UInt32), 2 ≤ count.toNat → count.toNat < 4 →
      memoryGet (runnerInitialize runner).runner.vm.memory
        ⟨runner.vm.memory.numSegments + count, offset⟩ = .error .get := by
    intro count offset atLeast below
    have index : (runner.vm.memory.numSegments + count).toNat =
        created + count.toNat := by
      rw [UInt32.toNat_add, before, Nat.mod_eq_of_lt (by omega)]
    have second : (runner.vm.memory.numSegments + 1).toNat = created + 1 :=
      within.addSegment.toNat_numSegments (by omega)
    have notProgram :
        runner.vm.memory.numSegments + count ≠ runner.vm.memory.numSegments := by
      intro same
      rw [same] at index
      omega
    have notExecution :
        runner.vm.memory.numSegments + count ≠ runner.vm.memory.numSegments + 1 := by
      intro same
      rw [same] at index
      omega
    have outside : created ≤ (runner.vm.memory.numSegments + count).toNat := by omega
    rw [memoryGet_eq, stored, if_neg notProgram, if_neg notExecution,
      within.cells_eq_none outside]
    rfl
  refine ⟨programLoad, executionLoad, ?_, program, programBase, executionBase, endPtr,
    ?_, initialPc, ?_, initialFp, ?_, ?_, ?_, ?_, ?_, ?_, ?_⟩
  · rw [after, before]
  · rw [finalPc, endPtr]
  · rw [runContext, initialPc]
  · rw [runContext, initialFp]
  · rw [runContext, initialFp]
  · intro offset
    rw [memoryGet_eq, stored, if_pos rfl]
  · intro offset
    have distinct : runner.vm.memory.numSegments + 1 ≠ runner.vm.memory.numSegments := by
      simp
    rw [memoryGet_eq, stored, if_neg distinct, if_pos rfl, getElem?_mainFrame]
    split
    · rfl
    · split <;> rfl
  · intro offset
    exact empty 2 offset (by decide) (by decide)
  · intro offset
    exact empty 3 offset (by decide) (by decide)
  · intro ptr notProgram notExecution
    rw [memoryGet_eq, memoryGet_eq, stored, if_neg notProgram, if_neg notExecution]

/-- `runner_initialize` sets up every runner that calls of its own functions and of
the memory operations lead to, as long as segment indices do not wrap. -/
theorem runnerInitialize_sound [LawfulCCArray Array] (program : Program Array)
    (ops : List (RunnerOp Array))
    (small : (CCArray.iter program.data).length ≤ 2 ^ 32 - 1)
    (noWrap : segmentsCreated ops + 4 < 2 ^ 32) :
    let runner := runnerRun Table program ops
    InitializedFrom runner runner.vm.memory.numSegments (runnerInitialize runner) := by
  intro runner
  refine initializedFrom_runnerInitialize (within_runnerRun program ops) noWrap ?_
  rw [program_runnerRun]
  omega

/-- A second initialization, of a runner with a stray cell in an earlier segment. -/
theorem runnerInitialize_sound_again :
    let runner := runnerRun CellTable (⟨1, [.felt #v[0, 0, 0, 7]]⟩ : Program Values)
      [.initializeRunner, .memory .addSegment,
        .memory (.insert ⟨4, 9⟩ (.relocatable ⟨0, 0⟩))]
    InitializedFrom runner runner.vm.memory.numSegments (runnerInitialize runner) :=
  runnerInitialize_sound _ _ (by decide) (by decide)

end CairoVM
