import CairoVM.Runner.Initialize

/-!
# Repeated entrypoint initialization

Every entrypoint call loads its stack frame at the start of the execution segment,
which is write-once memory.  Calls made after one `runner_initialize_segments` call
share that segment, so each of them finds the frames of the earlier ones.  The load
succeeds exactly when the new frame agrees with all of them.

The frames are tracked by a machine of their own, which knows nothing of the memory.
-/

namespace CairoVM

/-! ## Frames -/

/-- Two stack frames hold equal values at every offset that both have. -/
def Compatible (first second : Values) : Prop :=
  ∀ pair ∈ first.zip second, pair.1 = pair.2

instance (first second : Values) :
    Decidable (Compatible first second) :=
  inferInstanceAs (Decidable (∀ pair ∈ first.zip second, pair.1 = pair.2))

theorem compatible_iff {first second : Values} :
    Compatible first second ↔ ∀ (index : Nat) value other, first[index]? = some value →
      second[index]? = some other → other = value := by
  simp only [Compatible, List.mem_iff_getElem?, List.getElem?_zip_eq_some]
  constructor
  · intro agree index value other found held
    exact (agree (value, other) ⟨index, found, held⟩).symm
  · rintro agree ⟨value, other⟩ ⟨index, found, held⟩
    exact (agree index value other found held).symm

/-- The execution segment as the entrypoint calls determine it: the number of
segments created so far, and the frames loaded since the last
`runner_initialize_segments` call. -/
structure OpenFrames where
  created : Nat
  frames : List Values

variable {Array : Type} [CCArray Array MaybeRelocatable]

/-- The frame that a call loads when `created` segments exist.  The end segment is
the last one that the call creates. -/
def EntrypointOp.frame? (created : Nat) :
    EntrypointOp Array → Option Values
  | .initializeSegments => none
  | .mainEntrypoint =>
      some (entrypointFrame [] ⟨UInt32.ofNat created, 0⟩ ⟨UInt32.ofNat (created + 1), 0⟩)
  | .functionEntrypoint _ stack returnFp =>
      some (entrypointFrame (CCArray.iter stack) returnFp ⟨UInt32.ofNat created, 0⟩)

/-- Creating the segments starts a new, empty execution segment. -/
def openFramesStep (state : OpenFrames) (op : EntrypointOp Array) : OpenFrames where
  created := state.created + op.segments
  frames :=
    match op.frame? state.created with
    | none => []
    | some frame => frame :: state.frames

/-- The frame of the call agrees with every frame loaded before it into the same
segment. -/
def FrameAgrees (state : OpenFrames) (op : EntrypointOp Array) : Prop :=
  ∀ frame ∈ op.frame? state.created, ∀ earlier ∈ state.frames, Compatible frame earlier

instance (state : OpenFrames) (op : EntrypointOp Array) : Decidable (FrameAgrees state op) :=
  inferInstanceAs (Decidable (∀ frame ∈ op.frame? state.created, _))

/-- Any two entrypoint calls that share an execution segment build frames that
agree. -/
def FramesAgree (ops : List (EntrypointOp Array)) : Prop :=
  Machine.Always openFramesStep FrameAgrees ⟨0, []⟩ ops

instance (ops : List (EntrypointOp Array)) : Decidable (FramesAgree ops) :=
  inferInstanceAs (Decidable (Machine.Always _ _ _ _))

omit [CCArray Array MaybeRelocatable] in
/-- The number of segments that a sequence of calls creates. -/
def entrySegments (ops : List (EntrypointOp Array)) : Nat :=
  (ops.map EntrypointOp.segments).sum

omit [CCArray Array MaybeRelocatable] in
@[simp] theorem entrySegments_concat (ops : List (EntrypointOp Array))
    (op : EntrypointOp Array) :
    entrySegments (ops ++ [op]) = entrySegments ops + op.segments := by
  simp [entrySegments]

/-- The calls that the entrypoint functions are meant for: each entrypoint call has a
`runner_initialize_segments` call somewhere before it, its frame fits into a segment,
and the segment counter does not wrap. -/
structure ProperCalls (ops : List (EntrypointOp Array)) : Prop where
  initialized : ∀ before op after, ops = before ++ op :: after →
    op ≠ .initializeSegments → .initializeSegments ∈ before
  short : ∀ entrypoint stack returnFp,
    .functionEntrypoint entrypoint stack returnFp ∈ ops →
      (CCArray.iter stack).length < 2 ^ 32 - 2
  noWrap : entrySegments ops < 2 ^ 32

theorem ProperCalls.of_concat {ops : List (EntrypointOp Array)} {op : EntrypointOp Array}
    (proper : ProperCalls (ops ++ [op])) : ProperCalls ops where
  initialized before called after split notSegments :=
    proper.initialized before called (after ++ [op]) (by simp [split]) notSegments
  short entrypoint stack returnFp member :=
    proper.short entrypoint stack returnFp (List.mem_append_left [op] member)
  noWrap := by
    have bound := proper.noWrap
    rw [entrySegments_concat] at bound
    omega

variable {Table : Type} [CCHashTable Table Relocatable MaybeRelocatable]

/-- An entrypoint call in which neither load fails and the cells below the initial
frame pointer hold the return frame pointer and the end pointer. -/
structure CallSucceeds (returnFp : Relocatable) (outcome : EntrypointOutcome Table Array) :
    Prop where
  programLoad : ∃ endPtr, outcome.loads.program = .ok endPtr
  executionLoad : ∃ endPtr, outcome.loads.execution = .ok endPtr
  savedFp : memoryGet outcome.runner.vm.memory
    { outcome.runner.initialFp with offset := outcome.runner.initialFp.offset - 2 } =
      .ok (.relocatable returnFp)
  returnPc : memoryGet outcome.runner.vm.memory
    { outcome.runner.initialFp with offset := outcome.runner.initialFp.offset - 1 } =
      .ok (.relocatable outcome.endPtr)
  finalPc_eq : outcome.runner.finalPc = outcome.endPtr

/-- The call succeeds, if it is an entrypoint call. -/
def OpSucceeds (runner : CairoRunner Table Array) (op : EntrypointOp Array) : Prop :=
  ∀ returnFp outcome, op.outcome? runner = some (returnFp, outcome) →
    CallSucceeds returnFp outcome

/-- Every entrypoint call of a run succeeds. -/
def EntrypointsSucceed (Table : Type)
    [CCHashTable Table Relocatable MaybeRelocatable] (program : Program Array)
    (ops : List (EntrypointOp Array)) : Prop :=
  Machine.Always entrypointStep OpSucceeds (runnerNew Table program) ops

/-! ## One call -/

/-- A prepared runner whose execution segment holds exactly the open frames. -/
structure Holds (program : Program Array) (state : OpenFrames)
    (runner : CairoRunner Table Array) : Prop extends
    Prepared program state.created runner where
  executionCells : ∀ offset value,
    cells runner.vm.memory ⟨runner.executionBase.segmentIndex, offset⟩ = some value ↔
      ∃ frame ∈ state.frames, frame[offset.toNat]? = some value

theorem Holds.addSegment {program : Program Array} {state : OpenFrames}
    {runner : CairoRunner Table Array} (holds : Holds program state runner) :
    Holds program ⟨state.created + 1, state.frames⟩
      (runner.setMemory (memoryAddSegment runner.vm.memory).2) where
  toPrepared := holds.toPrepared.addSegment
  executionCells := holds.executionCells

variable [LawfulCCHashTable Table memoryConf] [LawfulCCArray Array]

section FunctionEntrypoint

/-- An entrypoint call leaves a prepared runner prepared. -/
theorem Prepared.functionEntrypoint {program : Program Array} {created : Nat}
    {runner : CairoRunner Table Array} (prepared : Prepared program created runner)
    (noWrap : created + 1 < 2 ^ 32) (small : (CCArray.iter program.data).length < 2 ^ 32)
    (entrypoint : UInt32) {stack : Array}
    (short : (CCArray.iter stack).length + 2 < 2 ^ 32) (returnFp : Relocatable)
    (executionLoad : ∃ endPtr, (runnerInitializeFunctionEntrypoint runner entrypoint
      stack returnFp).loads.execution = .ok endPtr) :
    Prepared program (created + 1)
      (runnerInitializeFunctionEntrypoint runner entrypoint stack returnFp).runner := by
  obtain ⟨-, -, programEq, programBase, executionBase, -, -⟩ :=
    functionEntrypoint_pointers prepared entrypoint stack returnFp
  obtain ⟨-, -, within, stored⟩ :=
    functionEntrypoint_loads prepared noWrap small entrypoint short returnFp
  refine ⟨programEq, within, ?_, ?_, ?_, ?_, ?_, ?_⟩
  · rw [programBase]
    exact prepared.programStart
  · rw [executionBase]
    exact prepared.executionStart
  · rw [programBase]
    exact Nat.lt_succ_of_lt prepared.programCreated
  · rw [executionBase]
    exact Nat.lt_succ_of_lt prepared.executionCreated
  · rw [programBase, executionBase]
    exact prepared.distinct
  · intro offset value present
    rw [programBase, stored executionLoad] at present
    rcases present with before | ⟨-, inProgram⟩ | ⟨inExecution, -⟩
    · exact prepared.programCells offset value before
    · exact inProgram
    · exact absurd inExecution prepared.distinct

variable {program : Program Array} {state : OpenFrames} {runner : CairoRunner Table Array}

/-- An entrypoint call succeeds exactly when its frame agrees with the open frames,
and its frame is then open as well. -/
theorem Holds.functionEntrypoint (holds : Holds program state runner)
    (noWrap : state.created + 1 < 2 ^ 32) (small : (CCArray.iter program.data).length < 2 ^ 32)
    (entrypoint : UInt32) {stack : Array}
    (short : (CCArray.iter stack).length + 2 < 2 ^ 32) (returnFp : Relocatable) :
    let outcome :=
      runnerInitializeFunctionEntrypoint runner entrypoint stack returnFp
    let frame := entrypointFrame (CCArray.iter stack) returnFp ⟨UInt32.ofNat state.created, 0⟩
    (CallSucceeds returnFp outcome ↔
      ∀ earlier ∈ state.frames, Compatible frame earlier) ∧
    ((∀ earlier ∈ state.frames, Compatible frame earlier) →
      Holds program ⟨state.created + 1, frame :: state.frames⟩ outcome.runner) := by
  intro outcome frame
  obtain ⟨endPtr, finalPc, programEq, programBase, executionBase, -, initialFp⟩ :=
    functionEntrypoint_pointers holds.toPrepared entrypoint stack returnFp
  obtain ⟨programLoad, accepted, within, stored⟩ :=
    functionEntrypoint_loads holds.toPrepared noWrap small entrypoint short returnFp
  rw [holds.within.counter] at endPtr
  simp only [endPtr] at accepted stored
  have agreement : (∃ endPtr, outcome.loads.execution = .ok endPtr) ↔
      ∀ earlier ∈ state.frames, Compatible frame earlier := by
    rw [accepted]
    simp only [holds.executionCells, compatible_iff]
    constructor
    · intro agree earlier member index value other found held
      have bound : index < frame.length := (List.getElem?_eq_some_iff.mp found).1
      rw [length_entrypointFrame] at bound
      have offset : (UInt32.ofNat index).toNat = index := by
        rw [UInt32.toNat_ofNat', Nat.mod_eq_of_lt (by omega)]
      rw [← offset] at found held
      exact agree (UInt32.ofNat index) value other found ⟨earlier, member, held⟩
    · rintro agree offset value held found ⟨earlier, member, present⟩
      exact agree earlier member offset.toNat value held found present
  obtain ⟨savedFp, returnPc⟩ := getElem?_entrypointFrame_top (CCArray.iter stack) returnFp
    ⟨UInt32.ofNat state.created, 0⟩
  constructor
  · rw [← agreement]
    refine ⟨fun succeeds => succeeds.executionLoad, fun executionLoad => ?_⟩
    refine ⟨programLoad, executionLoad, ?_, ?_, finalPc⟩
    · rw [initialFp, memoryGet_eq_ok_iff, stored executionLoad]
      refine Or.inr (Or.inr ⟨rfl, ?_⟩)
      rw [toNat_below_frameTop short (by decide)]
      exact savedFp
    · rw [initialFp, endPtr, memoryGet_eq_ok_iff, stored executionLoad]
      refine Or.inr (Or.inr ⟨rfl, ?_⟩)
      rw [toNat_below_frameTop short (by decide)]
      exact returnPc
  · intro agree
    have executionLoad := agreement.mpr agree
    refine ⟨holds.toPrepared.functionEntrypoint noWrap small entrypoint short returnFp
      executionLoad, ?_⟩
    intro offset value
    rw [executionBase, stored executionLoad, holds.executionCells]
    constructor
    · rintro (⟨earlier, member, held⟩ | ⟨inProgram, -⟩ | ⟨-, found⟩)
      · exact ⟨earlier, List.mem_cons_of_mem frame member, held⟩
      · exact absurd inProgram.symm holds.distinct
      · exact ⟨frame, List.mem_cons_self, found⟩
    · rintro ⟨earlier, member, held⟩
      rcases List.mem_cons.mp member with rfl | member
      · exact Or.inr (Or.inr ⟨rfl, held⟩)
      · exact Or.inl ⟨earlier, member, held⟩

end FunctionEntrypoint

/-! ## Runs -/

/-- The runner after `ops`, next to the machine that tracks the open frames. -/
structure Tracks (program : Program Array) (ops : List (EntrypointOp Array))
    (runner : CairoRunner Table Array) (state : OpenFrames) : Prop where
  program_eq : runner.program = program
  created_eq : state.created = entrySegments ops
  within : Within state.created runner.vm.memory
  holds : .initializeSegments ∈ ops → Holds program state runner

omit [LawfulCCHashTable Table memoryConf] [LawfulCCArray Array] in
theorem opSucceeds_iff {runner : CairoRunner Table Array} {op : EntrypointOp Array}
    {returnFp : Relocatable} {outcome : EntrypointOutcome Table Array}
    (isOutcome : op.outcome? runner = some (returnFp, outcome)) :
    OpSucceeds runner op ↔ CallSucceeds returnFp outcome := by
  simp [OpSucceeds, isOutcome]

omit [LawfulCCArray Array] in
theorem frameAgrees_iff {state : OpenFrames} {op : EntrypointOp Array}
    {frame : Values} (isFrame : op.frame? state.created = some frame) :
    FrameAgrees state op ↔ ∀ earlier ∈ state.frames, Compatible frame earlier := by
  simp [FrameAgrees, isFrame]

/-- One call.  It succeeds exactly when its frame agrees with the open frames, and in
that case the two machines stay together. -/
theorem Tracks.step {program : Program Array} {ops : List (EntrypointOp Array)}
    {op : EntrypointOp Array} {runner : CairoRunner Table Array} {state : OpenFrames}
    (small : (CCArray.iter program.data).length < 2 ^ 32) (proper : ProperCalls (ops ++ [op]))
    (tracks : Tracks program ops runner state) :
    (OpSucceeds runner op ↔ FrameAgrees state op) ∧
    (FrameAgrees state op →
      Tracks program (ops ++ [op]) (entrypointStep runner op)
        (openFramesStep state op)) := by
  have noWrap := proper.noWrap
  rw [entrySegments_concat, ← tracks.created_eq] at noWrap
  have created : (openFramesStep state op).created = entrySegments (ops ++ [op]) := by
    rw [entrySegments_concat, ← tracks.created_eq]
    rfl
  cases op with
  | initializeSegments =>
      constructor
      · constructor
        · intro _ frame isFrame
          cases isFrame
        · intro _ returnFp outcome isOutcome
          cases isOutcome
      · intro _
        have fresh :=
          fresh_runnerInitializeSegments tracks.within (Nat.le_of_lt noWrap)
        rw [tracks.program_eq] at fresh
        refine ⟨fresh.program_eq, created, fresh.within,
          fun _ => ⟨fresh.toPrepared, ?_⟩⟩
        intro offset value
        have empty := fresh.executionEmpty offset
        rw [entrypointStep, empty]
        simp [openFramesStep, EntrypointOp.frame?]
  | mainEntrypoint =>
      have holds := tracks.holds (proper.initialized ops _ [] rfl (by simp))
      have isEmpty : CCArray.iter (CCArray.new : Array) = [] := LawfulCCArray.iter_new
      have noStack : (CCArray.iter (CCArray.new : Array)).length + 2 < 2 ^ 32 := by
        rw [isEmpty]
        decide
      obtain ⟨succeeds, after⟩ := holds.addSegment.functionEntrypoint noWrap small
        program.main noStack ⟨UInt32.ofNat state.created, 0⟩
      rw [isEmpty] at succeeds after
      have returned : EntrypointOp.outcome? runner .mainEntrypoint =
          some (⟨UInt32.ofNat state.created, 0⟩,
            runnerInitializeMainEntrypoint runner) := by
        rw [← tracks.within.counter]
        rfl
      have call : runnerInitializeMainEntrypoint runner =
          runnerInitializeFunctionEntrypoint
            (runner.setMemory (memoryAddSegment runner.vm.memory).2) program.main
            CCArray.new ⟨UInt32.ofNat state.created, 0⟩ := by
        rw [← tracks.within.counter, ← tracks.program_eq]
        rfl
      rw [opSucceeds_iff returned, entrypointStep, call, succeeds, frameAgrees_iff rfl]
      refine ⟨Iff.rfl, fun agree => ?_⟩
      exact ⟨(after agree).program_eq, created, (after agree).within,
        fun _ => after agree⟩
  | functionEntrypoint entrypoint stack returnFp =>
      have holds := tracks.holds (proper.initialized ops _ [] rfl (by simp))
      have short : (CCArray.iter stack).length + 2 < 2 ^ 32 := by
        have fewer := proper.short entrypoint stack returnFp (by simp)
        omega
      obtain ⟨succeeds, after⟩ :=
        holds.functionEntrypoint noWrap small entrypoint short returnFp
      rw [opSucceeds_iff rfl, succeeds, frameAgrees_iff rfl]
      refine ⟨Iff.rfl, fun agree => ?_⟩
      exact ⟨(after agree).program_eq, created, (after agree).within,
        fun _ => after agree⟩

/-- The entrypoint calls of a run succeed exactly when the frames that share an
execution segment agree. -/
theorem entrypointsSucceed_iff (program : Program Array) (ops : List (EntrypointOp Array))
    (small : (CCArray.iter program.data).length < 2 ^ 32) (proper : ProperCalls ops) :
    EntrypointsSucceed Table program ops ↔ FramesAgree ops := by
  have initially : Tracks program [] (runnerNew Table program) ⟨0, []⟩ :=
    ⟨rfl, rfl, Within.initially, by simp⟩
  refine (Machine.always_iff_of_related entrypointStep openFramesStep OpSucceeds
    FrameAgrees (runnerNew Table program) ⟨0, []⟩ ProperCalls (Tracks program) initially
    (fun ops op => ProperCalls.of_concat) ?_ proper).1
  intro ops op runner state proper tracks
  exact tracks.step small proper

omit [LawfulCCArray Array] in
/-- Calls that begin by creating the segments. -/
theorem ProperCalls.of_initializeSegments {ops : List (EntrypointOp Array)}
    (short : ∀ entrypoint stack returnFp,
      .functionEntrypoint entrypoint stack returnFp ∈ ops →
        (CCArray.iter stack).length < 2 ^ 32 - 2)
    (noWrap : entrySegments ops + 2 < 2 ^ 32) :
    ProperCalls (.initializeSegments :: ops) where
  initialized before op after split notSegments := by
    cases before with
    | nil =>
        rw [List.nil_append, List.cons.injEq] at split
        exact absurd split.1.symm notSegments
    | cons first rest =>
        rw [List.cons_append, List.cons.injEq] at split
        rw [← split.1]
        exact List.mem_cons_self
  short entrypoint stack returnFp member := by
    rcases List.mem_cons.mp member with same | member
    · cases same
    · exact short entrypoint stack returnFp member
  noWrap := by
    simp only [entrySegments, List.map_cons, List.sum_cons] at noWrap ⊢
    change 2 + _ < _
    omega

/-- Two calls in one execution segment, the second of which loads the frame of the
first below its own, and a call in the next execution segment. -/
theorem entrypointsSucceed_nested_frames :
    EntrypointsSucceed CellTable (⟨1, [.felt #v[0, 0, 0, 7]]⟩ : Program Values)
      [.initializeSegments, .functionEntrypoint 0 [] ⟨9, 9⟩,
        .functionEntrypoint 3 [.relocatable ⟨9, 9⟩, .relocatable ⟨2, 0⟩] ⟨1, 2⟩,
        .initializeSegments, .mainEntrypoint] := by
  refine (entrypointsSucceed_iff _ _ (by decide) ?_).mpr (by decide)
  refine ProperCalls.of_initializeSegments ?_ (by decide)
  intro entrypoint stack returnFp member
  simp at member
  rcases member with ⟨-, rfl, -⟩ | ⟨-, rfl, -⟩ <;> decide

/-- A second main entrypoint call in the same execution segment cannot load its
frame. -/
theorem entrypointsSucceed_fails_on_second_main :
    ¬∀ (program : Program Values) (ops : List (EntrypointOp Values)),
      (CCArray.iter program.data).length < 2 ^ 32 → ProperCalls ops →
        EntrypointsSucceed CellTable program ops := by
  intro always
  have proper : ProperCalls
      ([.initializeSegments, .mainEntrypoint, .mainEntrypoint] :
        List (EntrypointOp Values)) :=
    ProperCalls.of_initializeSegments (by simp) (by decide)
  obtain ⟨-, -, second, -⟩ := always ⟨0, []⟩ _ (by decide) proper
  obtain ⟨endPtr, ok⟩ := (second _ _ rfl).executionLoad
  cases ok

end CairoVM
