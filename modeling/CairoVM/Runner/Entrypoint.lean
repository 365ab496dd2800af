import CairoVM.Memory.Load
import CairoVM.Memory.Segments
import CairoVM.Model.Runner

/-!
# Entrypoint initialization

What one entrypoint call does to a runner whose program and execution segments have
been created.  The program load always succeeds there.  The load of the stack
succeeds exactly when the execution segment does not contradict the stack frame that
the call builds.
-/

namespace CairoVM

variable {Table : Type} [CCHashTable Table Relocatable MaybeRelocatable]
  {Array : Type} [CCArray Array MaybeRelocatable]

/-- The stack that an entrypoint call loads: the caller's stack, the saved frame
pointer, and the end pointer. -/
def entrypointFrame (stack : Values)
    (returnFp endPtr : Relocatable) : Values :=
  stack ++ [.relocatable returnFp, .relocatable endPtr]

@[simp] theorem length_entrypointFrame (stack : Values)
    (returnFp endPtr : Relocatable) :
    (entrypointFrame stack returnFp endPtr).length = stack.length + 2 := by
  simp [entrypointFrame]

/-- The frame, cell by cell. -/
theorem getElem?_entrypointFrame (stack : Values)
    (returnFp endPtr : Relocatable) (index : Nat) :
    (entrypointFrame stack returnFp endPtr)[index]? =
      if inStack : index < stack.length then some stack[index]
      else if index = stack.length then some (.relocatable returnFp)
      else if index = stack.length + 1 then some (.relocatable endPtr)
      else none := by
  unfold entrypointFrame
  split
  · rename_i inStack
    rw [List.getElem?_append_left inStack, List.getElem?_eq_getElem inStack]
  · rename_i beyond
    rw [List.getElem?_append_right (Nat.not_lt.mp beyond)]
    rcases above : index - stack.length with _ | _ | further
    · rw [if_pos (by omega)]
      rfl
    · rw [if_neg (by omega), if_pos (by omega)]
      rfl
    · rw [if_neg (by omega), if_neg (by omega)]
      rfl

/-- The two values on top of a frame. -/
theorem getElem?_entrypointFrame_top (stack : Values)
    (returnFp endPtr : Relocatable) :
    (entrypointFrame stack returnFp endPtr)[stack.length]? =
        some (.relocatable returnFp) ∧
      (entrypointFrame stack returnFp endPtr)[stack.length + 1]? =
        some (.relocatable endPtr) := by
  simp [entrypointFrame]

/-- The offsets of the cells just below the top of a frame. -/
theorem toNat_below_frameTop {stack : Values}
    (short : stack.length + 2 < 2 ^ 32) {count : UInt32} (atMostTwo : count.toNat ≤ 2) :
    (UInt32.ofNat (stack.length + 2) - count).toNat = stack.length + 2 - count.toNat := by
  have size : (UInt32.ofNat (stack.length + 2)).toNat = stack.length + 2 :=
    UInt32.toNat_ofNat_of_lt' short
  rw [UInt32.toNat_sub_of_le _ _ (UInt32.le_iff_toNat_le.mpr (by omega)), size]

/-- What an entrypoint call makes of the stack of its caller. -/
theorem iter_entrypointFrame [LawfulCCArray Array] (stack : Array)
    (returnFp endPtr : Relocatable) :
    CCArray.iter (CCArray.add (CCArray.add stack
        (MaybeRelocatable.relocatable returnFp)).2 (.relocatable endPtr)).2 =
      entrypointFrame (CCArray.iter stack) returnFp endPtr := by
  rw [LawfulCCArray.iter_add, LawfulCCArray.iter_add, List.append_assoc, entrypointFrame]
  rfl

theorem size_entrypointFrame [LawfulCCArray Array] (stack : Array)
    (returnFp endPtr : Relocatable) :
    CCArray.size (CCArray.add (CCArray.add stack
        (MaybeRelocatable.relocatable returnFp)).2 (.relocatable endPtr)).2 =
      (CCArray.iter stack).length + 2 := by
  rw [LawfulCCArray.size_eq, iter_entrypointFrame, length_entrypointFrame]

/-- An entrypoint call keeps the program. -/
@[simp] theorem program_functionEntrypoint (runner : CairoRunner Table Array)
    (entrypoint : UInt32) (stack : Array) (returnFp : Relocatable) :
    (runnerInitializeFunctionEntrypoint runner entrypoint stack
      returnFp).runner.program = runner.program := rfl

@[simp] theorem program_mainEntrypoint (runner : CairoRunner Table Array) :
    (runnerInitializeMainEntrypoint runner).runner.program = runner.program :=
  program_functionEntrypoint _ _ _ _

@[simp] theorem program_runnerInitialize (runner : CairoRunner Table Array) :
    (runnerInitialize runner).runner.program = runner.program :=
  program_mainEntrypoint (runnerInitializeSegments runner)

/-- The runner of a program in whose memory `created` segments have been created,
among them two different ones for the program and for execution.  The program segment
holds nothing but program data. -/
structure Prepared (program : Program Array) (created : Nat)
    (runner : CairoRunner Table Array) : Prop where
  program_eq : runner.program = program
  within : Within created runner.vm.memory
  programStart : runner.programBase.offset = 0
  executionStart : runner.executionBase.offset = 0
  programCreated : runner.programBase.segmentIndex.toNat < created
  executionCreated : runner.executionBase.segmentIndex.toNat < created
  distinct : runner.programBase.segmentIndex ≠ runner.executionBase.segmentIndex
  programCells : ∀ offset value,
    cells runner.vm.memory ⟨runner.programBase.segmentIndex, offset⟩ = some value →
      (CCArray.iter program.data)[offset.toNat]? = some value

namespace Prepared

variable {program : Program Array} {created : Nat} {runner : CairoRunner Table Array}

theorem programBase_eq (prepared : Prepared program created runner) :
    runner.programBase = ⟨runner.programBase.segmentIndex, 0⟩ := by
  rw [← prepared.programStart]

theorem executionBase_eq (prepared : Prepared program created runner) :
    runner.executionBase = ⟨runner.executionBase.segmentIndex, 0⟩ := by
  rw [← prepared.executionStart]

theorem addSegment (prepared : Prepared program created runner) :
    Prepared program (created + 1)
      (runner.setMemory (memoryAddSegment runner.vm.memory).2) where
  program_eq := prepared.program_eq
  within := prepared.within.addSegment
  programStart := prepared.programStart
  executionStart := prepared.executionStart
  programCreated := Nat.lt_succ_of_lt prepared.programCreated
  executionCreated := Nat.lt_succ_of_lt prepared.executionCreated
  distinct := prepared.distinct
  programCells := prepared.programCells

end Prepared

omit [CCArray Array MaybeRelocatable] in
/-- The segments that `runner_initialize_segments` creates are the next two. -/
theorem runnerInitializeSegments_indices {created : Nat} {runner : CairoRunner Table Array}
    (within : Within created runner.vm.memory) (noWrap : created + 2 ≤ 2 ^ 32) :
    (runnerInitializeSegments runner).programBase.segmentIndex.toNat = created ∧
      (runnerInitializeSegments runner).executionBase.segmentIndex.toNat =
        created + 1 := by
  constructor
  · exact within.toNat_numSegments (by omega)
  · exact within.addSegment.toNat_numSegments (by omega)

/-- `runner_initialize_segments` prepares any runner whose memory has room for two
more segments. -/
theorem prepared_runnerInitializeSegments {created : Nat} {runner : CairoRunner Table Array}
    (within : Within created runner.vm.memory) (noWrap : created + 2 ≤ 2 ^ 32) :
    Prepared runner.program (created + 2) (runnerInitializeSegments runner) := by
  obtain ⟨programIndex, executionIndex⟩ := runnerInitializeSegments_indices within noWrap
  refine ⟨rfl, within.addSegment.addSegment, rfl, rfl, ?_, ?_, ?_, ?_⟩
  · omega
  · omega
  · intro same
    rw [← same] at executionIndex
    omega
  · intro offset value present
    have below := within.bounded _ _ present
    dsimp only at below
    omega

variable [LawfulCCHashTable Table memoryConf]

/-! ## The two loads -/

namespace Prepared

variable {program : Program Array} {created : Nat} {runner : CairoRunner Table Array}

/-- Loading the program into a prepared runner succeeds: whatever the program
segment holds is program data already. -/
theorem programLoad (prepared : Prepared program created runner)
    (noWrap : created < 2 ^ 32) (small : (CCArray.iter program.data).length < 2 ^ 32) :
    (∃ endPtr, (memoryLoadData runner.vm.memory runner.programBase
      (CCArray.iter runner.program.data)).1 = .ok endPtr) ∧
    ∀ address value,
      cells (memoryLoadData runner.vm.memory runner.programBase
        (CCArray.iter runner.program.data)).2 address = some value ↔
        cells runner.vm.memory address = some value ∨
          (address.segmentIndex = runner.programBase.segmentIndex ∧
            (CCArray.iter program.data)[address.offset.toNat]? = some value) := by
  have inside : Created runner.vm.memory.numSegments runner.programBase :=
    (prepared.within.created_iff noWrap).mpr prepared.programCreated
  rw [prepared.programBase_eq, prepared.program_eq]
  have ok : ∃ endPtr, (memoryLoadData runner.vm.memory
      ⟨runner.programBase.segmentIndex, 0⟩ (CCArray.iter program.data)).1 = .ok endPtr := by
    rw [memoryLoadData_segment_ok_iff (by omega) inside]
    intro offset value held found present
    have stored := prepared.programCells offset held present
    exact Option.some.inj (stored.symm.trans found)
  exact ⟨ok, cells_memoryLoadData_segment (by omega) ok⟩

/-- The program load leaves the execution segment alone. -/
theorem cells_execution_programLoad (prepared : Prepared program created runner)
    (noWrap : created < 2 ^ 32) (small : (CCArray.iter program.data).length < 2 ^ 32)
    (offset : UInt32) :
    cells (memoryLoadData runner.vm.memory runner.programBase
      (CCArray.iter runner.program.data)).2 ⟨runner.executionBase.segmentIndex, offset⟩ =
        cells runner.vm.memory ⟨runner.executionBase.segmentIndex, offset⟩ := by
  apply Option.ext
  intro value
  rw [(prepared.programLoad noWrap small).2]
  exact or_iff_left fun inProgram => prepared.distinct inProgram.1.symm

/-- Loading a stack after the program succeeds exactly when the execution segment of
the prepared runner does not contradict it. -/
theorem executionLoad (prepared : Prepared program created runner)
    (noWrap : created < 2 ^ 32) (small : (CCArray.iter program.data).length < 2 ^ 32)
    {frame : Values} (fits : frame.length < 2 ^ 32) :
    let middle := (memoryLoadData runner.vm.memory runner.programBase
      (CCArray.iter runner.program.data)).2
    ((∃ endPtr, (memoryLoadData middle runner.executionBase frame).1 = .ok endPtr) ↔
      ∀ offset value held, frame[UInt32.toNat offset]? = some value →
        cells runner.vm.memory ⟨runner.executionBase.segmentIndex, offset⟩ =
          some held → held = value) ∧
    ((∃ endPtr, (memoryLoadData middle runner.executionBase frame).1 = .ok endPtr) →
      ∀ address value,
        cells (memoryLoadData middle runner.executionBase frame).2 address =
          some value ↔
        cells runner.vm.memory address = some value ∨
          (address.segmentIndex = runner.programBase.segmentIndex ∧
            (CCArray.iter program.data)[address.offset.toNat]? = some value) ∨
          (address.segmentIndex = runner.executionBase.segmentIndex ∧
            frame[address.offset.toNat]? = some value)) := by
  intro middle
  have inside : Created middle.numSegments runner.executionBase := by
    rw [numSegments_memoryLoadData]
    exact (prepared.within.created_iff noWrap).mpr prepared.executionCreated
  rw [prepared.executionBase_eq]
  constructor
  · rw [memoryLoadData_segment_ok_iff (by omega) inside]
    simp only [middle, prepared.cells_execution_programLoad noWrap small]
  · intro ok address value
    rw [cells_memoryLoadData_segment (by omega) ok,
      (prepared.programLoad noWrap small).2, or_assoc]

end Prepared

/-! ## One entrypoint call -/

section FunctionEntrypoint

variable [LawfulCCArray Array] {program : Program Array} {created : Nat}
  {runner : CairoRunner Table Array}

omit [LawfulCCHashTable Table memoryConf] in
/-- The registers and pointers that an entrypoint call computes. -/
theorem functionEntrypoint_pointers (prepared : Prepared program created runner)
    (entrypoint : UInt32) (stack : Array) (returnFp : Relocatable) :
    let outcome :=
      runnerInitializeFunctionEntrypoint runner entrypoint stack returnFp
    outcome.endPtr = ⟨runner.vm.memory.numSegments, 0⟩ ∧
      outcome.runner.finalPc = outcome.endPtr ∧
      outcome.runner.program = program ∧
      outcome.runner.programBase = runner.programBase ∧
      outcome.runner.executionBase = runner.executionBase ∧
      outcome.runner.initialPc = ⟨runner.programBase.segmentIndex, entrypoint⟩ ∧
      outcome.runner.initialFp =
        ⟨runner.executionBase.segmentIndex,
          UInt32.ofNat ((CCArray.iter stack).length + 2)⟩ := by
  refine ⟨rfl, rfl, prepared.program_eq, rfl, rfl, ?_, ?_⟩
  · change (⟨runner.programBase.segmentIndex, runner.programBase.offset + entrypoint⟩ :
      Relocatable) = _
    rw [prepared.programStart, UInt32.zero_add]
  · exact congrArg (fun size => Relocatable.mk _ (UInt32.ofNat size))
      (size_entrypointFrame stack returnFp ⟨runner.vm.memory.numSegments, 0⟩)

/-- The two loads of an entrypoint call, and the memory they leave. -/
theorem functionEntrypoint_loads (prepared : Prepared program created runner)
    (noWrap : created + 1 < 2 ^ 32) (small : (CCArray.iter program.data).length < 2 ^ 32)
    (entrypoint : UInt32) {stack : Array}
    (short : (CCArray.iter stack).length + 2 < 2 ^ 32) (returnFp : Relocatable) :
    let outcome :=
      runnerInitializeFunctionEntrypoint runner entrypoint stack returnFp
    let frame := entrypointFrame (CCArray.iter stack) returnFp outcome.endPtr
    (∃ endPtr, outcome.loads.program = .ok endPtr) ∧
    ((∃ endPtr, outcome.loads.execution = .ok endPtr) ↔
      ∀ offset value held, frame[UInt32.toNat offset]? = some value →
        cells runner.vm.memory ⟨runner.executionBase.segmentIndex, offset⟩ =
          some held → held = value) ∧
    Within (created + 1) outcome.runner.vm.memory ∧
    ((∃ endPtr, outcome.loads.execution = .ok endPtr) →
      ∀ address value, cells outcome.runner.vm.memory address = some value ↔
        cells runner.vm.memory address = some value ∨
          (address.segmentIndex = runner.programBase.segmentIndex ∧
            (CCArray.iter program.data)[address.offset.toNat]? = some value) ∨
          (address.segmentIndex = runner.executionBase.segmentIndex ∧
            frame[address.offset.toNat]? = some value)) := by
  intro outcome frame
  have extended := prepared.addSegment
  have frameEq := iter_entrypointFrame stack returnFp outcome.endPtr
  have fits : frame.length < 2 ^ 32 := by
    rw [length_entrypointFrame]
    exact short
  obtain ⟨accepted, stored⟩ := extended.executionLoad noWrap small fits
  simp only [frame, ← frameEq] at accepted stored ⊢
  exact ⟨(extended.programLoad noWrap small).1, accepted,
    (extended.within.loadData _ _).loadData _ _, stored⟩

end FunctionEntrypoint

end CairoVM
