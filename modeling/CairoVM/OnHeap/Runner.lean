import CairoVM.Model.HeapRunner
import CairoVM.OnHeap.Memory

/-!
# A runner owns what it frees

The runner on the heap is compared with the runner over a lawful table.  As long as the
containers of Collections-C do not refuse to grow, the two have the same registers and
the same cells; if they do, ownership is all that is left, and it is enough to see that
a runner gives back its memory and its program.
-/

namespace CairoVM

/-- What the functions of a runner compute beside its memory. -/
structure Registers where
  main : UInt32
  runContext : RunContext
  programBase : Relocatable
  executionBase : Relocatable
  initialPc : Relocatable
  initialFp : Relocatable
  finalPc : Relocatable
  deriving DecidableEq, Repr

def CairoRunner.registers {Table : Type} (runner : CairoRunner Table Values) : Registers where
  main := runner.program.main
  runContext := runner.vm.runContext
  programBase := runner.programBase
  executionBase := runner.executionBase
  initialPc := runner.initialPc
  initialFp := runner.initialFp
  finalPc := runner.finalPc

namespace OnHeap

def HeapRunner.registers (runner : HeapRunner) : Registers where
  main := runner.program.main
  runContext := runner.vm.runContext
  programBase := runner.programBase
  executionBase := runner.executionBase
  initialPc := runner.initialPc
  initialFp := runner.initialFp
  finalPc := runner.finalPc

theorem registers_eq_iff {Table : Type} {runner : HeapRunner}
    {ghost : CairoRunner Table Values} :
    runner.registers = ghost.registers ↔
      runner.program.main = ghost.program.main ∧
      runner.vm.runContext = ghost.vm.runContext ∧
      runner.programBase = ghost.programBase ∧
      runner.executionBase = ghost.executionBase ∧
      runner.initialPc = ghost.initialPc ∧
      runner.initialFp = ghost.initialFp ∧
      runner.finalPc = ghost.finalPc :=
  Registers.mk.injEq .. ▸ Iff.rfl

open HeapLogic WriteOnce
open Assertion (pointsTo fact has_pointsTo fact_mul_apply iSup_fact_mul_apply)

/-- No allocation fails, and no container refuses to grow. -/
structure Reliable (platform : Platform Content) (collections : Collections) : Prop where
  allocates : ¬platform.MayFail
  accepts : ¬collections.MayRefuse
  grows : ¬collections.ArrayMayRefuse

variable {Table : Type} [CCHashTable Table Relocatable MaybeRelocatable]
  {platform : Platform Content} {collections : Collections}

/-! ## Agreement with a runner over a table -/

/-- The blocks of a memory that has the cells of another one, or of one whose table was
never allocated. -/
def memoryLike (platform : Platform Content) (collections : Collections)
    (mem : HeapMemory) (ghost : Memory Table) : Assertion Content :=
  (⨆ store, fact (Reliable platform collections → store = ghost.store) *
    memoryAt mem store) ⊔ fact (platform.MayFail ∧ mem.data = .indeterminate)

/-- The blocks of the memory of a runner that agrees with another one. -/
def runnerLike (platform : Platform Content) (collections : Collections)
    (runner : HeapRunner) (ghost : CairoRunner Table Values) : Assertion Content :=
  fact (Reliable platform collections → runner.registers = ghost.registers) *
    memoryLike platform collections runner.vm.memory ghost.vm.memory

theorem memoryLike_apply {mem : HeapMemory} {ghost : Memory Table} {part : Heap Content} :
    memoryLike platform collections mem ghost part ↔
      (∃ store, (Reliable platform collections → store = ghost.store) ∧
        memoryAt mem store part) ∨
      (platform.MayFail ∧ mem.data = .indeterminate) ∧ part = ∅ := by
  simp only [memoryLike, Pi.sup_apply, iSup_apply, iSup_Prop_eq, fact_mul_apply]
  exact Iff.rfl

/-- A memory without a table owns nothing. -/
theorem unallocated_le_memoryLike {mem : HeapMemory} {ghost : Memory Table}
    (mayFail : platform.MayFail) (unallocated : mem.data = .indeterminate) :
    1 ≤ memoryLike platform collections mem ghost * leaked collections 1 := by
  refine le_trans (fun part nothing => ?_) (le_mul_leaked _ 1)
  exact memoryLike_apply.mpr (.inr ⟨⟨mayFail, unallocated⟩, nothing⟩)

theorem memoryLike_rule {Result : Type} {mem : HeapMemory} {ghost : Memory Table}
    {kept : Assertion Content} {program : Prog Result} {post : Result → Assertion Content}
    (allocated : ∀ store, (Reliable platform collections → store = ghost.store) →
      Triple (AllocationFault platform) (memoryAt mem store * kept) program post)
    (unallocated : platform.MayFail → mem.data = .indeterminate →
      Triple (AllocationFault platform) kept program post) :
    Triple (AllocationFault platform)
      (memoryLike platform collections mem ghost * kept) program post := by
  rw [memoryLike, Quantale.sup_mul_distrib, Quantale.iSup_mul_distrib]
  apply Triple.sup
  · apply Triple.iSup
    intro store
    rw [mul_assoc]
    exact Triple.fact (allocated store)
  · exact Triple.fact fun given => unallocated given.1 given.2

theorem runnerLike_apply {runner : HeapRunner} {ghost : CairoRunner Table Values}
    {part : Heap Content} :
    runnerLike platform collections runner ghost part ↔
      (Reliable platform collections → runner.registers = ghost.registers) ∧
        memoryLike platform collections runner.vm.memory ghost.vm.memory part :=
  fact_mul_apply

theorem runnerLike_eq (runner : HeapRunner) (ghost : CairoRunner Table Values) :
    runnerLike platform collections runner ghost =
      fact (Reliable platform collections → runner.registers = ghost.registers) *
        runnerLike platform collections runner ghost := by
  funext part
  rw [fact_mul_apply, runnerLike_apply, and_self_left]

/-- Changes to the registers of agreeing runners. -/
theorem runnerLike_le {runner runner' : HeapRunner} {ghost ghost' : CairoRunner Table Values}
    (memory : runner'.vm.memory = runner.vm.memory)
    (ghostMemory : ghost'.vm.memory = ghost.vm.memory)
    (registers : Reliable platform collections → runner.registers = ghost.registers →
      runner'.registers = ghost'.registers) :
    runnerLike platform collections runner ghost ≤
      runnerLike platform collections runner' ghost' := by
  intro part inside
  obtain ⟨same, owned⟩ := runnerLike_apply.mp inside
  rw [← memory, ← ghostMemory] at owned
  exact runnerLike_apply.mpr ⟨fun reliable => registers reliable (same reliable), owned⟩

theorem runnerLike_initialFp {runner : HeapRunner} {ghost : CairoRunner Table Values}
    {size ghostSize : Nat} (same : Reliable platform collections → size = ghostSize) :
    runnerLike platform collections runner ghost ≤
      runnerLike platform collections
        { runner with
          initialFp := ⟨runner.executionBase.segmentIndex, UInt32.ofNat size⟩ }
        { ghost with
          initialFp := ⟨ghost.executionBase.segmentIndex, UInt32.ofNat ghostSize⟩ } := by
  refine runnerLike_le rfl rfl fun reliable registers => ?_
  rw [registers_eq_iff] at registers ⊢
  obtain ⟨main, context, programBase, executionBase, initialPc, -, finalPc⟩ := registers
  refine ⟨main, context, programBase, executionBase, initialPc, ?_, finalPc⟩
  rw [executionBase, same reliable]

theorem runnerLike_finalPc {runner : HeapRunner} {ghost : CairoRunner Table Values}
    {endPtr ghostEnd : Relocatable}
    (same : Reliable platform collections → endPtr = ghostEnd) :
    runnerLike platform collections runner ghost ≤
      runnerLike platform collections { runner with finalPc := endPtr }
        { ghost with finalPc := ghostEnd } := by
  refine runnerLike_le rfl rfl fun reliable registers => ?_
  rw [registers_eq_iff] at registers ⊢
  obtain ⟨main, context, programBase, executionBase, initialPc, initialFp, -⟩ := registers
  exact ⟨main, context, programBase, executionBase, initialPc, initialFp, same reliable⟩

/-- Creating a segment in agreeing runners. -/
theorem runnerLike_addSegment (runner : HeapRunner) (ghost : CairoRunner Table Values) :
    runnerLike platform collections runner ghost ≤
      fact (Reliable platform collections → (memoryAddSegment runner.vm.memory).1 =
          (CairoVM.memoryAddSegment ghost.vm.memory).1) *
        runnerLike platform collections
          (runner.setMemory (memoryAddSegment runner.vm.memory).2)
          (ghost.setMemory (CairoVM.memoryAddSegment ghost.vm.memory).2) := by
  intro part inside
  obtain ⟨registers, owned⟩ := runnerLike_apply.mp inside
  rw [fact_mul_apply, runnerLike_apply, memoryLike_apply]
  rcases memoryLike_apply.mp owned with ⟨store, same, owned⟩ | ⟨⟨mayFail, unallocated⟩, rfl⟩
  · obtain ⟨counted, grown⟩ := memoryAt_addSegment part owned
    refine ⟨fun reliable => ?_, registers, .inl ⟨_, fun reliable => ?_, grown⟩⟩
    · rw [memoryAddSegment, CairoVM.memoryAddSegment, counted, same reliable]
      rfl
    · rw [same reliable]
      rfl
  · exact ⟨fun reliable => absurd mayFail reliable.allocates, registers,
      .inr ⟨⟨mayFail, unallocated⟩, rfl⟩⟩

theorem runnerInitializeSegments_like (runner : HeapRunner)
    (ghost : CairoRunner Table Values) :
    runnerLike platform collections runner ghost ≤
      runnerLike platform collections (runnerInitializeSegments runner)
        (CairoVM.runnerInitializeSegments ghost) := by
  intro part inside
  have first := runnerLike_addSegment runner ghost part inside
  rw [fact_mul_apply] at first
  have second := runnerLike_addSegment _ _ part first.2
  rw [fact_mul_apply] at second
  refine runnerLike_le ?_ ?_ (fun reliable registers => ?_) part second.2
  · rfl
  · rfl
  · have programBase := first.1 reliable
    have executionBase := second.1 reliable
    rw [registers_eq_iff] at registers ⊢
    obtain ⟨main, context, -, -, initialPc, initialFp, finalPc⟩ := registers
    exact ⟨main, context, programBase, executionBase, initialPc, initialFp, finalPc⟩

theorem runnerInitializeVm_like (runner : HeapRunner) (ghost : CairoRunner Table Values) :
    runnerLike platform collections runner ghost ≤
      runnerLike platform collections (runnerInitializeVm runner)
        (CairoVM.runnerInitializeVm ghost) := by
  refine runnerLike_le rfl rfl fun reliable registers => ?_
  rw [registers_eq_iff] at registers ⊢
  obtain ⟨main, -, programBase, executionBase, initialPc, initialFp, finalPc⟩ := registers
  refine ⟨main, ?_, programBase, executionBase, initialPc, initialFp, finalPc⟩
  rw [runnerInitializeVm, CairoVM.runnerInitializeVm, initialPc, initialFp]

/-! ## The stack -/

/-- The array after an addition that may have been refused. -/
def Grown (platform : Platform Content) (collections : Collections)
    (elements : List Pointer) (element : Pointer) (after : List Pointer) : Prop :=
  after = elements ++ [element] ∨ ¬Reliable platform collections ∧ after = elements

theorem ccArrayAdd_triple [LawfulCollections platform collections memoryConf]
    (array : Address) (storage : Storage) (elements : List Pointer) (element : Pointer) :
    Triple (AllocationFault platform) (arrayAt array storage elements)
      (collections.ccArrayAdd (.target array) element)
      fun _ => ⨆ after, fact (Grown platform collections elements element after) *
        arrayAt array storage after := by
  have adds : Safe (arrayAt array storage elements)
      (collections.ccArrayAdd (.target array) element) fun stat =>
        arrayAt array storage (if stat = .ok then elements ++ [element] else elements) :=
    LawfulCollections.arrayAdd platform memoryConf array storage elements element
  refine (Triple.of_safe adds).returned.consequence le_rfl fun stat => ?_
  refine le_iSup_of_le (if stat = .ok then elements ++ [element] else elements)
    (Assertion.mul_apply_mono (Assertion.fact_mono fun returned => ?_) le_rfl)
  by_cases added : stat = .ok
  · exact .inl (if_pos added)
  · refine .inr ⟨fun reliable => ?_, if_neg added⟩
    exact reliable.grows ⟨array, storage, elements, element, stat, added, returned⟩

theorem Grown.of_reliable {elements after : List Pointer} {element : Pointer}
    (grown : Grown platform collections elements element after)
    (reliable : Reliable platform collections) : after = elements ++ [element] :=
  grown.resolve_right fun refused => refused.1 reliable

theorem Grown.exists_values {relation : Pointer → MaybeRelocatable → Prop}
    {elements after : List Pointer} {values : List MaybeRelocatable} {element : Pointer}
    {value : MaybeRelocatable} (grown : Grown platform collections elements element after)
    (denoted : List.Forall₂ relation elements values) (last : relation element value) :
    ∃ values', List.Forall₂ relation after values' ∧
      (Reliable platform collections → values' = values ++ [value]) := by
  rcases grown with rfl | ⟨refuses, rfl⟩
  · exact ⟨values ++ [value], List.rel_append denoted (.cons last .nil), fun _ => rfl⟩
  · exact ⟨values, denoted, fun reliable => absurd reliable refuses⟩

theorem Denotes.mul_left {kept : Assertion Content} {pointer : Pointer}
    {value : MaybeRelocatable} (denotes : Denotes kept pointer value)
    (other : Assertion Content) : Denotes (other * kept) pointer value := by
  obtain ⟨address, storage, rfl, has⟩ := denotes
  exact ⟨address, storage, rfl, has.mul_left other⟩

theorem Denotes.mul_right {kept : Assertion Content} {pointer : Pointer}
    {value : MaybeRelocatable} (denotes : Denotes kept pointer value)
    (other : Assertion Content) : Denotes (kept * other) pointer value := by
  rw [mul_comm]
  exact denotes.mul_left other

theorem denotes_pointsTo (address : Address) (storage : Storage)
    (value : MaybeRelocatable) :
    Denotes (pointsTo address ⟨storage, .maybeRelocatable value⟩) (.target address) value :=
  ⟨address, storage, rfl, has_pointsTo _ _⟩

theorem DenotesArray.mul_left {kept : Assertion Content} {pointer : Pointer}
    {values : List MaybeRelocatable} (denotes : DenotesArray kept pointer values)
    (other : Assertion Content) : DenotesArray (other * kept) pointer values := by
  obtain ⟨address, storage, elements, rfl, has, denoted⟩ := denotes
  exact ⟨address, storage, elements, rfl, has.mul_left other,
    denoted.imp fun _ _ denotes => denotes.mul_left other⟩

theorem DenotesArray.mul_right {kept : Assertion Content} {pointer : Pointer}
    {values : List MaybeRelocatable} (denotes : DenotesArray kept pointer values)
    (other : Assertion Content) : DenotesArray (kept * other) pointer values := by
  rw [mul_comm]
  exact denotes.mul_left other

/-! ## Calls on the memory -/

section Lawful

variable [LawfulCCHashTable Table memoryConf]
  [LawfulCollections platform collections memoryConf]

omit [LawfulCollections platform collections memoryConf] in
/-- What a call does to agreeing memories. -/
theorem answered_le_memoryLike {store : CellStore} {ghost : Memory Table}
    (same : Reliable platform collections → store = ghost.store)
    {call ghostCall : MemoryCall Values}
    (sameCall : Reliable platform collections → call = ghostCall)
    (outcome : MemoryResponse × HeapMemory) :
    answered collections store call outcome ≤
      fact (Reliable platform collections →
          outcome.1 = (CairoVM.memoryPerform ghost ghostCall).1) *
        (memoryLike platform collections outcome.2 (CairoVM.memoryPerform ghost ghostCall).2 *
          leaked collections 1) := by
  refine iSup_le fun after part inside => ?_
  rw [fact_mul_apply] at inside
  obtain ⟨performs, owned⟩ := inside
  have agree : Reliable platform collections →
      outcome.1 = (CairoVM.memoryPerform ghost ghostCall).1 ∧
      after = (CairoVM.memoryPerform ghost ghostCall).2.store := by
    intro reliable
    have never : collections.MayRefuse = False := eq_false reliable.accepts
    rw [never, same reliable, sameCall reliable] at performs
    exact performs.unique not_false (memoryPerform_performs ghost ghostCall)
  rw [fact_mul_apply]
  refine ⟨fun reliable => (agree reliable).1, ?_⟩
  refine Assertion.mul_apply_mono ?_ ?_ part owned
  · intro _ inside
    exact memoryLike_apply.mpr (.inl ⟨after, fun reliable => (agree reliable).2, inside⟩)
  · apply leaked_mono
    split
    · exact le_rfl
    · exact Nat.zero_le 1

omit [LawfulCCHashTable Table memoryConf] in
/-- A memory that is freed leaves nothing. -/
theorem memoryFree_like (mem : HeapMemory) (ghost : Memory Table) :
    Triple (AllocationFault platform) (memoryLike platform collections mem ghost)
      (memoryFree collections mem) fun _ => 1 := by
  rw [← mul_one (memoryLike platform collections mem ghost)]
  apply memoryLike_rule
  · intro store _
    rw [mul_one]
    exact memoryFree_triple mem store
  · intro mayFail unallocated
    rw [memoryFree, unallocated, LawfulCollections.iter_indeterminate platform memoryConf]
    exact Triple.stop ⟨mayFail, .inr rfl⟩

variable (Table collections) in
theorem memoryNew_like :
    Triple (AllocationFault platform) 1 (memoryNew collections)
      fun mem => memoryLike platform collections mem (CairoVM.memoryNew Table) := by
  refine memoryNew_triple.consequence le_rfl fun mem => sup_le_sup ?_ le_rfl
  refine le_iSup_of_le .empty (Assertion.le_fact_mul ?_ _)
  intro _
  exact store_memoryNew.symm

theorem memoryPerform_like {caller : Heap Content} (mem : HeapMemory)
    (ghost : Memory Table) {heapCall : MemoryCall Pointer} {call : MemoryCall Values}
    (resolved : resolveCall caller heapCall = some call) :
    Triple (AllocationFault platform)
      (memoryLike platform collections mem ghost * Assertion.exactly caller)
      (memoryPerform platform collections mem heapCall)
      fun outcome =>
        fact (Reliable platform collections →
            outcome.1 = (CairoVM.memoryPerform ghost call).1) *
          (memoryLike platform collections outcome.2 (CairoVM.memoryPerform ghost call).2 *
            leaked collections 1) * Assertion.exactly caller := by
  apply memoryLike_rule
  · intro store same
    refine (memoryPerform_triple mem store resolved).consequence le_rfl fun outcome => ?_
    exact Assertion.mul_apply_mono (answered_le_memoryLike same (fun _ => rfl) outcome)
      le_rfl
  · intro mayFail unallocated
    refine (memoryPerform_unallocated mayFail unallocated resolved).consequence le_rfl
      fun outcome => Assertion.mul_apply_mono ?_ le_rfl
    intro part inside
    rw [fact_mul_apply]
    refine ⟨fun reliable => absurd mayFail reliable.allocates, ?_⟩
    exact unallocated_le_memoryLike mayFail inside.1 part inside.2

theorem memoryLoadData_like {kept : Assertion Content} (mem : HeapMemory)
    (ghost : Memory Table) {ptr ghostPtr : Relocatable} {data : Pointer}
    {values ghostValues : List MaybeRelocatable} (array : DenotesArray kept data values)
    (same : Reliable platform collections → ptr = ghostPtr ∧ values = ghostValues) :
    Triple (AllocationFault platform) (memoryLike platform collections mem ghost * kept)
      (memoryLoadData platform collections mem ptr data)
      fun _ =>
        memoryLike platform collections mem
          (CairoVM.memoryLoadData ghost ghostPtr ghostValues).2 *
          leaked collections 1 * kept := by
  apply memoryLike_rule
  on_goal 2 =>
    intro mayFail unallocated
    refine (memoryLoadData_unallocated mayFail unallocated array).consequence le_rfl
      fun _ => ?_
    refine (one_mul kept).ge.trans ?_
    exact Assertion.mul_apply_mono (unallocated_le_memoryLike mayFail unallocated) le_rfl
  intro store sameStore
  refine (memoryLoadData_triple mem store ptr array).consequence le_rfl fun result => ?_
  rintro part inside
  rw [fact_mul_apply] at inside
  obtain ⟨returned, owned⟩ := inside
  obtain ⟨verdict, rfl⟩ : ∃ verdict,
      result = loadResult (ptr.advance values.length) verdict := ⟨_, returned⟩
  rw [isOk_loadResult] at owned
  refine Assertion.mul_apply_mono ?_ le_rfl part owned
  have sameCall : Reliable platform collections →
      MemoryCall.loadData ptr values = .loadData ghostPtr ghostValues := by
    intro reliable
    rw [(same reliable).1, (same reliable).2]
  have isAnswer : attempted collections mem store (loadWrites ptr values) verdict ≤
      answered collections store (.loadData ptr values)
        (.loaded (loadResult (ptr.advance values.length) verdict), mem) := by
    apply attempted_le_answered
    · rw [MemoryResponse.refused, WriteResult.refused, isOk_loadResult]
    · exact fun contents performed => .loadData performed
  intro part inside
  have agrees := answered_le_memoryLike sameStore sameCall _ part (isAnswer part inside)
  rw [fact_mul_apply] at agrees
  exact agrees.2

/-! ## The functions of the runner -/

theorem runnerInitializeState_like {kept : Assertion Content} (runner : HeapRunner)
    (ghost : CairoRunner Table Values) {entrypoint ghostEntrypoint : UInt32} {stack : Pointer}
    {values ghostStack : List MaybeRelocatable}
    (program : DenotesArray kept runner.program.data ghost.program.data)
    (array : DenotesArray kept stack values)
    (same : Reliable platform collections →
      values = ghostStack ∧ entrypoint = ghostEntrypoint) :
    Triple (AllocationFault platform) (runnerLike platform collections runner ghost * kept)
      (runnerInitializeState platform collections runner entrypoint stack)
      fun after => fact (after.program = runner.program) *
        (runnerLike platform collections after
          (CairoVM.runnerInitializeState ghost ghostEntrypoint ghostStack).2 *
          leaked collections 2 * kept) := by
  rw [runnerLike, mul_assoc]
  apply Triple.fact
  intro registers
  rw [registers_eq_iff] at registers
  have sameProgram : Reliable platform collections →
      runner.programBase = ghost.programBase ∧ ghost.program.data = ghost.program.data :=
    fun reliable => ⟨(registers reliable).2.2.1, rfl⟩
  have sameExecution : Reliable platform collections →
      runner.executionBase = ghost.executionBase ∧ values = ghostStack :=
    fun reliable => ⟨(registers reliable).2.2.2.1, (same reliable).1⟩
  refine Triple.bind (memoryLoadData_like _ _ program sameProgram) fun _ => ?_
  refine Triple.call (memoryLoadData_like _ _ array sameExecution)
    (mul_right_comm _ _ _) fun _ => ?_
  apply Triple.pure
  rw [Assertion.fact_of rfl, one_mul, mul_right_comm, mul_assoc (memoryLike _ _ _ _)]
  refine Assertion.mul_apply_mono (Assertion.mul_apply_mono ?_ (leaked_mul_le 1 1)) le_rfl
  intro part inside
  refine runnerLike_apply.mpr ⟨fun reliable => ?_, inside⟩
  obtain ⟨main, context, programBase, executionBase, initialPc, initialFp, finalPc⟩ :=
    registers reliable
  simp only [HeapRunner.registers, CairoRunner.registers, CairoVM.runnerInitializeState,
    CairoRunner.setMemory, programBase, main, context, executionBase, initialFp, finalPc,
    (same reliable).2]

/-- A local variable with a pointer in it. -/
def localAt (address : Address) (ptr : Relocatable) : Assertion Content :=
  pointsTo address ⟨.automatic, .maybeRelocatable (.relocatable ptr)⟩

/-- The ghost of `runner_initialize_function_entrypoint` after its segment exists. -/
def ghostFrame (ghost : CairoRunner Table Values) (entrypoint : UInt32)
    (ghostStack : List MaybeRelocatable) (returnFp endPtr : Relocatable) :
    CairoRunner Table Values :=
  let ghostStack := ghostStack ++ [.relocatable returnFp] ++ [.relocatable endPtr]
  let initialFp : Relocatable :=
    ⟨ghost.executionBase.segmentIndex, UInt32.ofNat ghostStack.length⟩
  { (CairoVM.runnerInitializeState { ghost with initialFp } entrypoint ghostStack).2 with
    finalPc := endPtr }

/-- The body of `runner_initialize_function_entrypoint`, with its two local variables. -/
theorem functionEntrypointBody_like {kept : Assertion Content} (runner : HeapRunner)
    (ghost : CairoRunner Table Values) {entrypoint ghostEntrypoint : UInt32}
    {stack returnFpMr endMr : Address} {storage : Storage} {elements : List Pointer}
    {values ghostStack : List MaybeRelocatable}
    {returnFp ghostReturnFp endPtr ghostEnd : Relocatable}
    (program : DenotesArray kept runner.program.data ghost.program.data)
    (denoted : List.Forall₂ (Denotes kept) elements values)
    (same : Reliable platform collections →
      (values = ghostStack ∧ entrypoint = ghostEntrypoint) ∧ returnFp = ghostReturnFp ∧
        endPtr = ghostEnd) :
    Triple (AllocationFault platform)
      (localAt endMr endPtr * (localAt returnFpMr returnFp *
        (runnerLike platform collections runner ghost *
          (arrayAt stack storage elements * kept))))
      (do
        let _ ← collections.ccArrayAdd (.target stack) (.target returnFpMr)
        let _ ← collections.ccArrayAdd (.target stack) (.target endMr)
        let size ← collections.ccArraySize (.target stack)
        let initialFp : Relocatable :=
          ⟨runner.executionBase.segmentIndex, UInt32.ofNat size⟩
        let runner ← runnerInitializeState platform collections { runner with initialFp }
          entrypoint (.target stack)
        pure (endPtr, { runner with finalPc := endPtr }))
      fun outcome => localAt endMr endPtr * (localAt returnFpMr returnFp *
        (fact (outcome.2.program = runner.program ∧ outcome.1 = endPtr) *
          (runnerLike platform collections outcome.2
              (ghostFrame ghost ghostEntrypoint ghostStack ghostReturnFp ghostEnd) *
            leaked collections 2 *
            ((⨆ after, fact (Reliable platform collections →
                after = elements ++ [.target returnFpMr, .target endMr]) *
              arrayAt stack storage after) * kept)))) := by
  let rest := localAt endMr endPtr * (localAt returnFpMr returnFp *
    (runnerLike platform collections runner ghost * kept))
  have split : localAt endMr endPtr * (localAt returnFpMr returnFp *
      (runnerLike platform collections runner ghost *
        (arrayAt stack storage elements * kept))) =
      arrayAt stack storage elements * rest := by
    simp only [rest]
    ac_rfl
  refine Triple.call (ccArrayAdd_triple stack storage elements (.target returnFpMr)) split
    fun _ => ?_
  rw [Quantale.iSup_mul_distrib]
  apply Triple.iSup
  intro pushed
  rw [mul_assoc]
  apply Triple.fact
  intro first
  refine Triple.call (ccArrayAdd_triple stack storage pushed (.target endMr)) rfl fun _ => ?_
  rw [Quantale.iSup_mul_distrib]
  apply Triple.iSup
  intro after
  rw [mul_assoc]
  apply Triple.fact
  intro second
  refine Triple.reads (Triple.of_safe
    (LawfulCollections.arraySize platform memoryConf stack storage after)) rfl ?_
  let owned := arrayAt stack storage after *
    (localAt endMr endPtr * (localAt returnFpMr returnFp * kept))
  have regroup : arrayAt stack storage after * rest =
      runnerLike platform collections runner ghost * owned := by
    simp only [rest, owned]
    ac_rfl
  have keeps : ∀ pointer value, Denotes kept pointer value → Denotes owned pointer value :=
    fun _ _ denotes => ((denotes.mul_left _).mul_left _).mul_left _
  have denotesFp : Denotes owned (.target returnFpMr) (.relocatable returnFp) :=
    (((denotes_pointsTo _ _ _).mul_right _).mul_left _).mul_left _
  have denotesEnd : Denotes owned (.target endMr) (.relocatable endPtr) :=
    ((denotes_pointsTo _ _ _).mul_right _).mul_left _
  obtain ⟨values₁, denoted₁, values₁Eq⟩ :=
    first.exists_values (denoted.imp keeps) denotesFp
  obtain ⟨values₂, denoted₂, values₂Eq⟩ := second.exists_values denoted₁ denotesEnd
  have stackEq : Reliable platform collections → values₂ =
      ghostStack ++ [.relocatable ghostReturnFp] ++ [.relocatable ghostEnd] := by
    intro reliable
    obtain ⟨⟨sameValues, -⟩, sameFp, sameEnd⟩ := same reliable
    rw [values₂Eq reliable, values₁Eq reliable, sameValues, sameFp, sameEnd]
  have pushedBoth : Reliable platform collections →
      after = elements ++ [.target returnFpMr, .target endMr] := by
    intro reliable
    rw [second.of_reliable reliable, first.of_reliable reliable, List.append_assoc]
    rfl
  have sameSize : Reliable platform collections → after.length =
      (ghostStack ++ [.relocatable ghostReturnFp] ++ [.relocatable ghostEnd] :
        List MaybeRelocatable).length := by
    intro reliable
    rw [denoted₂.length_eq, stackEq reliable]
  rw [regroup]
  refine Triple.consequence ?_
    (Assertion.mul_apply_mono (runnerLike_initialFp sameSize) le_rfl) fun _ => le_rfl
  have arrayDenoted : DenotesArray owned (.target stack) values₂ :=
    ⟨stack, storage, after, rfl, (has_arrayAt _ _ _).mul_right _, denoted₂⟩
  have programDenoted : DenotesArray owned runner.program.data ghost.program.data :=
    ((program.mul_left _).mul_left _).mul_left _
  refine Triple.bind (runnerInitializeState_like _ _ programDenoted arrayDenoted
    fun reliable => ⟨stackEq reliable, (same reliable).1.2⟩) fun runner => ?_
  apply Triple.fact
  intro sameProgram
  apply Triple.pure
  have regroup' : ∀ running : Assertion Content,
      running * leaked collections 2 * owned =
        localAt endMr endPtr * (localAt returnFpMr returnFp *
          (running * leaked collections 2 * (arrayAt stack storage after * kept))) := by
    intro running
    simp only [owned]
    ac_rfl
  rw [Assertion.fact_of ⟨sameProgram, rfl⟩, one_mul, regroup']
  refine Assertion.mul_apply_mono le_rfl (Assertion.mul_apply_mono le_rfl
    (Assertion.mul_apply_mono (Assertion.mul_apply_mono ?_ le_rfl)
      (Assertion.mul_apply_mono (le_iSup_of_le after ?_) le_rfl)))
  · exact runnerLike_finalPc fun reliable => (same reliable).2.2
  · exact Assertion.le_fact_mul pushedBoth _

/-- Two pointers were pushed on the stack of a caller that has no block under them. -/
def PushesDangling (caller : Heap Content) (stack : Address)
    (elements grown : List Pointer) : Prop :=
  ∃ returnFpMr endMr,
    grown = elements ++ [.target returnFpMr, .target endMr] ∧
    (returnFpMr ≠ stack ∧ returnFpMr ∉ caller) ∧ endMr ≠ stack ∧ endMr ∉ caller

/-- The stack of a caller after a function was entered with it. -/
def stackAfter (platform : Platform Content) (collections : Collections)
    (caller : Heap Content) (stack : Address) (storage : Storage)
    (elements : List Pointer) : Assertion Content :=
  ⨆ grown, fact (Reliable platform collections →
      PushesDangling caller stack elements grown) *
    arrayAt stack storage grown

/-- A local variable is none of the blocks of the caller. -/
theorem local_fresh {Result : Type} {caller : Heap Content} {stack address : Address}
    {block : Block Content} {storage : Storage} {elements : List Pointer}
    {running kept : Assertion Content} {program : Prog Result}
    {post : Result → Assertion Content} (others : Assertion Content)
    (given : (address ≠ stack ∧ address ∉ caller) → Triple (AllocationFault platform)
      (others * (pointsTo address block *
        (running * (arrayAt stack storage elements * (kept * Assertion.exactly caller)))))
      program post) :
    Triple (AllocationFault platform)
      (others * (pointsTo address block *
        (running * (arrayAt stack storage elements * (kept * Assertion.exactly caller)))))
      program post := by
  have apartStack : others * (pointsTo address block *
        (running * (arrayAt stack storage elements * (kept * Assertion.exactly caller)))) =
      pointsTo address block * (arrayAt stack storage elements *
        (others * running * (kept * Assertion.exactly caller))) := by
    ac_rfl
  have apartCaller : others * (pointsTo address block *
        (running * (arrayAt stack storage elements * (kept * Assertion.exactly caller)))) =
      pointsTo address block * (Assertion.exactly caller *
        (others * running * arrayAt stack storage elements * kept)) := by
    ac_rfl
  refine Triple.apart apartStack fun notStack => ?_
  refine Triple.apart apartCaller fun notCaller => ?_
  exact given ⟨mt (Finmap.mem_singleton _ _ _).mpr notStack, notCaller⟩

/-- The arguments of a function, with its two return values on top of them. -/
theorem runnerInitializeFunctionEntrypoint_like {caller : Heap Content}
    {kept : Assertion Content} (runner : HeapRunner) (ghost : CairoRunner Table Values)
    {entrypoint ghostEntrypoint : UInt32} {stack : Address} {storage : Storage}
    {elements : List Pointer} {values ghostStack : List MaybeRelocatable}
    {returnFp ghostReturnFp : Relocatable}
    (program : DenotesArray (kept * Assertion.exactly caller) runner.program.data
      ghost.program.data)
    (denoted : List.Forall₂ (Denotes (kept * Assertion.exactly caller)) elements values)
    (same : Reliable platform collections →
      (values = ghostStack ∧ entrypoint = ghostEntrypoint) ∧ returnFp = ghostReturnFp) :
    Triple (AllocationFault platform)
      (runnerLike platform collections runner ghost *
        (arrayAt stack storage elements * (kept * Assertion.exactly caller)))
      (runnerInitializeFunctionEntrypoint platform collections runner entrypoint
        (.target stack) returnFp)
      fun outcome =>
        let ghostOutcome := CairoVM.runnerInitializeFunctionEntrypoint ghost ghostEntrypoint
          ghostStack ghostReturnFp
        fact (outcome.2.program = runner.program ∧
            (Reliable platform collections → outcome.1 = ghostOutcome.endPtr)) *
          (runnerLike platform collections outcome.2 ghostOutcome.runner *
            leaked collections 2 *
            (stackAfter platform collections caller stack storage elements *
              (kept * Assertion.exactly caller))) := by
  refine Triple.consequence ?_
    (Assertion.mul_apply_mono (runnerLike_addSegment runner ghost) le_rfl) fun _ => le_rfl
  rw [mul_assoc]
  apply Triple.fact
  intro sameEnd
  rw [runnerInitializeFunctionEntrypoint]
  apply Triple.withLocal
  intro returnFpMr
  apply Triple.withLocal
  intro endMr
  refine local_fresh _ fun freshFp => ?_
  rw [mul_left_comm]
  refine local_fresh _ fun freshEnd => ?_
  rw [mul_left_comm]
  refine (functionEntrypointBody_like
    (runner.setMemory (memoryAddSegment runner.vm.memory).2)
    (ghost.setMemory (CairoVM.memoryAddSegment ghost.vm.memory).2) program denoted
    fun reliable => ⟨(same reliable).1, (same reliable).2, sameEnd reliable⟩).consequence
    le_rfl fun outcome => ?_
  refine Assertion.mul_apply_mono (le_iSup (pointsTo endMr) _)
    (Assertion.mul_apply_mono (le_iSup (pointsTo returnFpMr) _) ?_)
  refine Assertion.mul_apply_mono ?_ (Assertion.mul_apply_mono le_rfl
    (Assertion.mul_apply_mono ?_ le_rfl))
  · rintro part ⟨⟨sameProgram, returned⟩, nothing⟩
    refine ⟨⟨sameProgram, fun reliable => ?_⟩, nothing⟩
    rw [returned]
    exact sameEnd reliable
  · refine iSup_mono fun grown => Assertion.mul_apply_mono ?_ le_rfl
    rintro part ⟨pushed, nothing⟩
    exact ⟨fun reliable => ⟨returnFpMr, endMr, pushed reliable, freshFp, freshEnd⟩, nothing⟩

/-- Adding to an array that was never allocated. -/
theorem runnerInitializeFunctionEntrypoint_unallocated {owned : Assertion Content}
    (mayFail : platform.MayFail) (runner : HeapRunner) (entrypoint : UInt32)
    (returnFp : Relocatable) :
    Triple (AllocationFault platform) owned
      (runnerInitializeFunctionEntrypoint platform collections runner entrypoint
        .indeterminate returnFp)
      fun _ => ⊥ := by
  rw [runnerInitializeFunctionEntrypoint]
  apply Triple.withLocal
  intro returnFpMr
  apply Triple.withLocal
  intro endMr
  rw [LawfulCollections.arrayAdd_indeterminate platform memoryConf]
  exact Triple.stop ⟨mayFail, .inr rfl⟩

theorem runnerInitializeMainEntrypoint_like {caller : Heap Content}
    {kept : Assertion Content} (runner : HeapRunner) (ghost : CairoRunner Table Values)
    (program : DenotesArray (kept * Assertion.exactly caller) runner.program.data
      ghost.program.data) :
    Triple (AllocationFault platform)
      (runnerLike platform collections runner ghost * (kept * Assertion.exactly caller))
      (runnerInitializeMainEntrypoint platform collections runner)
      fun outcome =>
        let ghostOutcome := CairoVM.runnerInitializeMainEntrypoint ghost
        fact (outcome.2.program = runner.program ∧
            (Reliable platform collections → outcome.1 = ghostOutcome.endPtr)) *
          (runnerLike platform collections outcome.2 ghostOutcome.runner *
            leaked collections 2 * (kept * Assertion.exactly caller)) := by
  rw [runnerInitializeMainEntrypoint]
  refine made_rule (LawfulCollections.arrayNew memoryConf .indeterminate) ?_ ?_
  · intro array
    rw [mul_left_comm, runnerLike_eq, mul_assoc]
    apply Triple.fact
    intro registers
    rw [registers_eq_iff] at registers
    refine Triple.consequence ?_
      (Assertion.mul_apply_mono (runnerLike_addSegment runner ghost) le_rfl) fun _ => le_rfl
    rw [mul_assoc]
    apply Triple.fact
    intro sameFp
    refine Triple.bind (runnerInitializeFunctionEntrypoint_like
      (runner.setMemory (memoryAddSegment runner.vm.memory).2)
      (ghost.setMemory (CairoVM.memoryAddSegment ghost.vm.memory).2) program .nil
      fun reliable => ⟨⟨rfl, (registers reliable).1⟩, sameFp reliable⟩) ?_
    rintro ⟨endPtr, after⟩
    apply Triple.fact
    intro outcome
    rw [mul_left_comm, stackAfter, Quantale.iSup_mul_distrib]
    apply Triple.iSup
    intro elements
    rw [mul_assoc]
    apply Triple.fact
    intro _
    refine Triple.call (Triple.of_safe
      (LawfulCollections.arrayDestroy platform memoryConf array elements)) rfl fun _ => ?_
    rw [one_mul]
    exact Triple.pure _ (Assertion.le_fact_mul outcome _)
  · intro mayFail _
    exact Triple.bind (runnerInitializeFunctionEntrypoint_unallocated mayFail _ _ _)
      fun _ => Triple.bot

/-! ## Calls on the runner -/

/-- The call that a call with pointers means in the heap of the caller. -/
def resolveRunnerCall (heap : Heap Content) :
    SessionCall Pointer → Option (SessionCall Values)
  | .initializeRunner => some .initializeRunner
  | .entry op => some (.entry op)
  | .memory call => (resolveCall heap call).map .memory

omit [LawfulCCHashTable Table memoryConf] in
theorem program_runnerPerform (runner : CairoRunner Table Values) (call : SessionCall Values) :
    (CairoVM.runnerPerform runner call).2.program = runner.program := by
  match call with
  | .initializeRunner => rfl
  | .entry .initializeSegments => rfl
  | .entry .mainEntrypoint => rfl
  | .memory _ => rfl

theorem runnerPerform_like {caller : Heap Content} {kept : Assertion Content}
    (runner : HeapRunner) (ghost : CairoRunner Table Values)
    {heapCall : SessionCall Pointer} {call : SessionCall Values}
    (program : DenotesArray kept runner.program.data ghost.program.data)
    (resolved : resolveRunnerCall caller heapCall = some call) :
    Triple (AllocationFault platform)
      (runnerLike platform collections runner ghost * (kept * Assertion.exactly caller))
      (runnerPerform platform collections runner heapCall)
      fun outcome =>
        let ghostOutcome := CairoVM.runnerPerform ghost call
        fact (outcome.2.program = runner.program ∧
            (Reliable platform collections → outcome.1 = ghostOutcome.1)) *
          (runnerLike platform collections outcome.2 ghostOutcome.2 * leaked collections 2 *
            (kept * Assertion.exactly caller)) := by
  have program' := program.mul_right (Assertion.exactly caller)
  cases heapCall with
  | entry op =>
      obtain rfl := Option.some.inj resolved
      cases op with
      | initializeSegments =>
          apply Triple.pure
          refine le_trans ?_ (Assertion.le_fact_mul ⟨rfl, fun _ => rfl⟩ _)
          refine Assertion.mul_apply_mono ?_ le_rfl
          exact (runnerInitializeSegments_like runner ghost).trans (le_mul_leaked _ 2)
      | mainEntrypoint =>
          refine Triple.bind (runnerInitializeMainEntrypoint_like runner ghost program') ?_
          rintro ⟨endPtr, after⟩
          apply Triple.fact
          rintro ⟨sameProgram, sameEnd⟩
          refine Triple.pure _ (Assertion.le_fact_mul ⟨sameProgram, fun reliable => ?_⟩ _)
          exact congrArg RunnerResponse.endPtr (sameEnd reliable)
      | functionEntrypoint _ stack _ => cases stack
  | initializeRunner =>
      obtain rfl := Option.some.inj resolved
      simp only [runnerPerform, runnerInitialize, bind_assoc]
      refine Triple.consequence ?_ (Assertion.mul_apply_mono
        (runnerInitializeSegments_like runner ghost) le_rfl) fun _ => le_rfl
      refine Triple.bind (runnerInitializeMainEntrypoint_like
        (runnerInitializeSegments runner) (CairoVM.runnerInitializeSegments ghost)
        program') ?_
      rintro ⟨endPtr, after⟩
      apply Triple.fact
      rintro ⟨sameProgram, sameEnd⟩
      rw [pure_bind]
      apply Triple.pure
      refine le_trans ?_ (Assertion.le_fact_mul ⟨sameProgram, fun reliable => ?_⟩ _)
      · exact Assertion.mul_apply_mono (Assertion.mul_apply_mono
          (runnerInitializeVm_like _ _) le_rfl) le_rfl
      · exact congrArg RunnerResponse.endPtr (sameEnd reliable)
  | memory heapCall =>
      obtain ⟨call, resolvedCall, rfl⟩ := Option.map_eq_some_iff.mp resolved
      rw [runnerLike, mul_assoc]
      apply Triple.fact
      intro registers
      have split : memoryLike platform collections runner.vm.memory ghost.vm.memory *
          (kept * Assertion.exactly caller) =
          memoryLike platform collections runner.vm.memory ghost.vm.memory *
            Assertion.exactly caller * kept := by
        ac_rfl
      refine Triple.call (memoryPerform_like _ _ resolvedCall) split ?_
      rintro ⟨response, mem⟩
      rw [mul_assoc, mul_assoc]
      apply Triple.fact
      intro sameResponse
      apply Triple.pure
      refine le_trans ?_ (Assertion.le_fact_mul ⟨rfl, fun reliable => ?_⟩ _)
      · rw [mul_comm (Assertion.exactly caller)]
        exact Assertion.mul_apply_mono (Assertion.mul_apply_mono
          (Assertion.le_fact_mul registers _) (leaked_mono (by decide))) le_rfl
      · exact congrArg RunnerResponse.memory (sameResponse reliable)

theorem runnerPerformAll_like {caller : Heap Content} {kept : Assertion Content}
    (runner : HeapRunner) (ghost : CairoRunner Table Values)
    {heapCalls : List (SessionCall Pointer)} {calls : List (SessionCall Values)}
    (program : DenotesArray kept runner.program.data ghost.program.data)
    (resolved : heapCalls.mapM (resolveRunnerCall caller) = some calls) :
    Triple (AllocationFault platform)
      (runnerLike platform collections runner ghost * (kept * Assertion.exactly caller))
      (runnerPerformAll platform collections runner heapCalls)
      fun outcome =>
        fact (outcome.2.program = runner.program ∧
            (Reliable platform collections →
              outcome.1 = CairoVM.runnerResponses ghost calls)) *
          (runnerLike platform collections outcome.2 (CairoVM.runnerAfter ghost calls) *
            leaked collections (2 * calls.length) *
            (kept * Assertion.exactly caller)) := by
  induction heapCalls generalizing runner ghost calls with
  | nil =>
      rw [List.mapM_nil] at resolved
      obtain rfl := Option.some.inj resolved
      apply Triple.pure
      refine le_trans ?_ (Assertion.le_fact_mul ⟨rfl, fun _ => rfl⟩ _)
      rw [List.length_nil, leaked_zero, mul_one]
      exact le_rfl
  | cons heapCall rest ih =>
      obtain ⟨call, first, calls, others, rfl⟩ := Failing.mapM_cons_eq_some_iff.mp resolved
      refine Triple.bind (runnerPerform_like runner ghost program first) ?_
      rintro ⟨response, middle⟩
      apply Triple.fact
      rintro ⟨sameProgram, sameResponse⟩
      let ghost' := (CairoVM.runnerPerform ghost call).2
      have program' : DenotesArray kept middle.program.data ghost'.program.data := by
        rw [sameProgram, program_runnerPerform]
        exact program
      refine Triple.call (ih middle ghost' program' others) (mul_right_comm _ _ _) ?_
      rintro ⟨responses, after⟩
      rw [mul_assoc]
      apply Triple.fact
      rintro ⟨stillProgram, sameResponses⟩
      apply Triple.pure
      refine le_trans ?_ (Assertion.le_fact_mul
        ⟨stillProgram.trans sameProgram, fun reliable => ?_⟩ _)
      · rw [mul_right_comm, mul_assoc (runnerLike _ _ _ _)]
        refine Assertion.mul_apply_mono (Assertion.mul_apply_mono le_rfl ?_) le_rfl
        exact leaked_mul_le (2 * calls.length) 2
      · exact congrArg₂ List.cons (sameResponse reliable) (sameResponses reliable)

end Lawful

/-! ## The program -/

/-- Where a word of a program is, and its value. -/
abbrev Word := Address × MaybeRelocatable

def wordAt (word : Word) : Assertion Content :=
  pointsTo word.1 ⟨.dynamic, .maybeRelocatable word.2⟩

/-- The blocks of an array and of its words. -/
def wordsAt (array : Address) (words : List Word) : Assertion Content :=
  arrayAt array .dynamic (words.map fun word => .target word.1) * (words.map wordAt).prod

/-- The blocks of a program with these words. -/
def programAt (data : Pointer) (values : List MaybeRelocatable) : Assertion Content :=
  ⨆ layout : Address × List Word,
    fact (data = .target layout.1 ∧ layout.2.map Prod.snd = values) *
      wordsAt layout.1 layout.2

theorem denotesArray_wordsAt (array : Address) (words : List Word) :
    DenotesArray (wordsAt array words) (.target array) (words.map Prod.snd) := by
  refine ⟨array, .dynamic, words.map fun word => .target word.1, rfl,
    (has_arrayAt _ _ _).mul_right _, ?_⟩
  rw [List.forall₂_map_left_iff, List.forall₂_map_right_iff, List.forall₂_same]
  intro word member
  have found : (words.map wordAt).prod.Has word.1 ⟨.dynamic, .maybeRelocatable word.2⟩ :=
    (has_pointsTo _ _).prod (List.mem_map_of_mem member)
  exact ⟨word.1, .dynamic, rfl, found.mul_left _⟩

/-- The array and all its words are freed, each of them once. -/
theorem programFree_triple [LawfulCollections platform collections memoryConf]
    (main : UInt32) (array : Address) (words : List Word) :
    Triple (AllocationFault platform) (wordsAt array words)
      (programFree collections ⟨main, .target array⟩) fun _ => 1 := by
  let elements : List (Address × Content) :=
    words.map fun word => (word.1, .maybeRelocatable word.2)
  have split : wordsAt array words =
      arrayAt array .dynamic (elements.map fun element => .target element.1) *
        (elements.map fun element => pointsTo element.1 ⟨.dynamic, element.2⟩).prod := by
    simp only [elements, List.map_map]
    rfl
  rw [split]
  refine Triple.bind (Triple.of_safe (LawfulCollections.arrayRemoveAllFree platform
    memoryConf array .dynamic elements)) fun _ => ?_
  exact Triple.of_safe (LawfulCollections.arrayDestroy platform memoryConf array [])

/-! ## Sessions -/

section Sessions

variable [LawfulCCHashTable Table memoryConf]
  [LawfulCollections platform collections memoryConf]

omit [LawfulCCHashTable Table memoryConf] in
/-- Freeing a runner frees its memory and the program it was given. -/
theorem runnerFree_triple {kept : Assertion Content} (runner : HeapRunner)
    (ghost : CairoRunner Table Values) {array : Address} (words : List Word)
    (data : runner.program.data = .target array) :
    Triple (AllocationFault platform)
      (runnerLike platform collections runner ghost * (wordsAt array words * kept))
      (runnerFree collections runner) fun _ => kept := by
  obtain ⟨⟨main, _⟩, vm⟩ := runner
  obtain rfl : _ = Pointer.target array := data
  rw [runnerLike, mul_assoc]
  apply Triple.fact
  intro _
  refine Triple.call (memoryFree_like vm.memory ghost.vm.memory) rfl fun _ => ?_
  rw [one_mul]
  refine ((programFree_triple main array words).frame kept).consequence le_rfl fun _ => ?_
  rw [one_mul]

variable (Table collections) in
theorem runnerNew_triple (program : HeapProgram) (values : List MaybeRelocatable) :
    Triple (AllocationFault platform) 1 (runnerNew collections program)
      fun runner => fact (runner.program = program) *
        runnerLike platform collections runner
          (CairoVM.runnerNew Table ⟨program.main, values⟩) := by
  simp only [runnerNew, vmNew, bind_assoc, pure_bind]
  refine Triple.bind (memoryNew_like Table collections) fun memory => ?_
  apply Triple.pure
  refine le_trans ?_ (Assertion.le_fact_mul rfl _)
  exact Assertion.le_fact_mul (fun _ => rfl) _

variable (Table platform collections) in
theorem runnerSession_triple {caller : Heap Content} {program : HeapProgram}
    {array : Address} (words : List Word) (data : program.data = .target array)
    {heapCalls : List (SessionCall Pointer)} {calls : List (SessionCall Values)}
    (resolved : heapCalls.mapM (resolveRunnerCall caller) = some calls) :
    Triple (AllocationFault platform)
      (wordsAt array words * Assertion.exactly caller)
      (runnerSession platform collections program heapCalls)
      fun outcome =>
        let ghost := CairoVM.runnerNew Table ⟨program.main, words.map Prod.snd⟩
        fact (Reliable platform collections →
            outcome.1 = CairoVM.runnerResponses ghost calls ∧
            outcome.2.registers = (CairoVM.runnerAfter ghost calls).registers) *
          leaked collections (2 * calls.length) * Assertion.exactly caller := by
  rw [runnerSession]
  refine Triple.call (runnerNew_triple Table collections program (words.map Prod.snd))
    (one_mul _).symm fun runner => ?_
  rw [mul_assoc]
  apply Triple.fact
  rintro rfl
  have denoted : DenotesArray (wordsAt array words) runner.program.data
      (words.map Prod.snd) := by
    rw [data]
    exact denotesArray_wordsAt array words
  refine Triple.bind (runnerPerformAll_like runner _ denoted resolved) ?_
  rintro ⟨responses, after⟩
  apply Triple.fact
  rintro ⟨sameProgram, sameResponses⟩
  rw [runnerLike_eq, mul_assoc, mul_assoc]
  apply Triple.fact
  intro registers
  rw [mul_left_comm (leaked _ _)]
  refine Triple.bind (runnerFree_triple after _ words (sameProgram ▸ data)) fun _ => ?_
  apply Triple.pure
  rw [mul_assoc]
  exact Assertion.le_fact_mul (fun reliable => ⟨sameResponses reliable, registers reliable⟩) _

variable (Table) in
/-- From `runner_new` to `runner_free`, whatever is called in between: the program is
consumed, the rest of the caller's heap is left as it was, and nothing stays allocated
but what the table refused.  Unless something is refused or an allocation fails, the
responses and the registers are those of a runner over a lawful table. -/
theorem runnerSession_safe (platform : Platform Content) (collections : Collections)
    [LawfulCollections platform collections memoryConf]
    {heap caller : Heap Content} {program : HeapProgram} {values : List MaybeRelocatable}
    (owned : (programAt program.data values * Assertion.exactly caller) heap)
    {heapCalls : List (SessionCall Pointer)} {calls : List (SessionCall Values)}
    (resolved : heapCalls.mapM (resolveRunnerCall caller) = some calls) :
    (∃ responses runner leaks,
      runnerSession platform collections program heapCalls heap =
        .ok ((responses, runner), leaks ∪ caller) ∧
      leaks.Disjoint caller ∧
      leaks.keys.card ≤ 4 * calls.length ∧
      (¬collections.MayRefuse → leaks = ∅) ∧
      (Reliable platform collections →
        let ghost := CairoVM.runnerNew Table ⟨program.main, values⟩
        responses = CairoVM.runnerResponses ghost calls ∧
        runner.registers = (CairoVM.runnerAfter ghost calls).registers)) ∨
    platform.MayFail ∧
      (runnerSession platform collections program heapCalls heap =
          .error (.fault .nullAccess) ∨
        runnerSession platform collections program heapCalls heap =
          .error (.fault .indeterminateAccess)) := by
  simp only [programAt, Quantale.iSup_mul_distrib, mul_assoc] at owned
  obtain ⟨⟨array, words⟩, ⟨data, rfl⟩, inside⟩ := iSup_fact_mul_apply.mp owned
  have triple := runnerSession_triple Table platform collections words data resolved
  refine (run_of_triple triple inside).imp ?_ id
  rintro ⟨⟨responses, runner⟩, leaks, returned, apart, left⟩
  rw [fact_mul_apply] at left
  obtain ⟨agree, few, none⟩ := left
  exact ⟨responses, runner, leaks, returned, apart, by omega, none, agree⟩

theorem reliable_growing : Reliable (bumpPlatform Content) bumpCollections where
  allocates := not_mayFail_bumpPlatform Content
  accepts := not_mayRefuse_growing
  grows := not_arrayMayRefuse_growing

theorem programAt_arrayHeap :
    programAt (.target 0) [.relocatable ⟨0, 5⟩] arrayHeap := by
  refine iSup_fact_mul_apply.mpr
    ⟨(0, [(1, .relocatable ⟨0, 5⟩)]), ⟨rfl, rfl⟩, _, _, ?_, rfl, rfl, ?_⟩
  · intro address first second
    rw [Finmap.mem_singleton] at first second
    cases first.symm.trans second
  · rw [List.map_singleton, List.prod_singleton]
    rfl

theorem runnerSession_safe_arrayHeap : ∃ runner,
    runnerSession (bumpPlatform Content) bumpCollections ⟨0, .target 0⟩
      [.initializeRunner, .memory (.get ⟨1, 1⟩)] arrayHeap =
        .ok (([.endPtr ⟨3, 0⟩, .memory (.got (.ok (.relocatable ⟨3, 0⟩)))], runner), ∅) := by
  have owned : (programAt (HeapProgram.mk 0 (.target 0)).data [.relocatable ⟨0, 5⟩] *
      Assertion.exactly ∅ : Assertion Content) arrayHeap := by
    have nothing : (Assertion.exactly ∅ : Assertion Content) = 1 := rfl
    rw [nothing, mul_one]
    exact programAt_arrayHeap
  have resolved : [RunnerCall.initializeRunner, .memory (.get ⟨1, 1⟩)].mapM
      (resolveRunnerCall ∅) = some [.initializeRunner, .memory (.get ⟨1, 1⟩)] := rfl
  rcases runnerSession_safe CellTable (bumpPlatform Content) bumpCollections owned
      resolved with
    ⟨responses, runner, leaks, returned, -, -, none, agree⟩ | ⟨mayFail, -⟩
  · obtain ⟨rfl, -⟩ := agree reliable_growing
    rw [none not_mayRefuse_growing, Finmap.union_empty] at returned
    exact ⟨runner, returned⟩
  · exact absurd mayFail (not_mayFail_bumpPlatform Content)

end Sessions
end OnHeap
end CairoVM
