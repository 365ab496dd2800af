import CairoVM.OnHeap.Runner
import CairoVM.Runner.Entrypoint

/-!
# The stack of a function call

`runner_initialize_function_entrypoint` pushes pointers to two of its local variables on
the stack that its caller passes.  The values reach the memory of the runner before the
variables are gone, so the runner is sound; the stack of the caller is not.
-/

namespace CairoVM.OnHeap

open HeapLogic
open Assertion (fact fact_mul_apply iSup_fact_mul_apply)

variable {Table : Type} [CCHashTable Table Relocatable MaybeRelocatable]
  {platform : Platform Content} {collections : Collections}

theorem program_runnerAfter (runner : CairoRunner Table Values)
    (calls : List (SessionCall Values)) :
    (CairoVM.runnerAfter runner calls).program = runner.program :=
  Machine.run_induction _ runner (fun _ after => after.program = runner.program) rfl
    (fun _ _ same => (program_runnerPerform _ _).trans same) calls

/-- What a session with a function returns when nothing is refused. -/
def FunctionSession.AgreesWith (session : FunctionSession) (ghost : CairoRunner Table Values)
    (calls : List (SessionCall Values)) (entrypoint : UInt32)
    (arguments : List MaybeRelocatable) (returnFp : Relocatable)
    (later : List (SessionCall Values)) : Prop :=
  let entered := CairoVM.runnerInitializeFunctionEntrypoint
    (CairoVM.runnerAfter ghost calls) entrypoint arguments returnFp
  session.responses = CairoVM.runnerResponses ghost calls ∧
  session.endPtr = entered.endPtr ∧
  session.laterResponses = CairoVM.runnerResponses entered.runner later ∧
  session.runner.registers = (CairoVM.runnerAfter entered.runner later).registers

variable [LawfulCCHashTable Table memoryConf]
  [LawfulCollections platform collections memoryConf]

variable (Table platform collections) in
theorem functionSession_triple {caller : Heap Content} {program : HeapProgram}
    {array : Address} (words : List Word) (data : program.data = .target array)
    {heapCalls heapLater : List (SessionCall Pointer)}
    {calls later : List (SessionCall Values)}
    (resolved : heapCalls.mapM (resolveRunnerCall caller) = some calls)
    (resolvedLater : heapLater.mapM (resolveRunnerCall caller) = some later)
    (entrypoint : UInt32) (stack : Address) (storage : Storage) {elements : List Pointer}
    {arguments : List MaybeRelocatable}
    (read : elements.mapM (readValue caller) = some arguments)
    (returnFp : Relocatable) :
    Triple (AllocationFault platform)
      (wordsAt array words * (arrayAt stack storage elements * Assertion.exactly caller))
      (functionSession platform collections program heapCalls entrypoint (.target stack)
        returnFp heapLater)
      fun session =>
        fact (Reliable platform collections → session.AgreesWith
            (CairoVM.runnerNew Table ⟨program.main, words.map Prod.snd⟩) calls entrypoint
            arguments returnFp later) *
          (leaked collections (2 * calls.length + 2 + 2 * later.length) *
            stackAfter platform collections caller stack storage elements) *
          Assertion.exactly caller := by
  let ghost := CairoVM.runnerNew Table ⟨program.main, words.map Prod.snd⟩
  let before := CairoVM.runnerAfter ghost calls
  let entered := CairoVM.runnerInitializeFunctionEntrypoint before entrypoint arguments
    returnFp
  have denotes : DenotesArray (wordsAt array words) program.data (words.map Prod.snd) := by
    rw [data]
    exact denotesArray_wordsAt array words
  have sameBefore : before.program.data = words.map Prod.snd :=
    congrArg Program.data (program_runnerAfter ghost calls)
  have denotedArguments : List.Forall₂
      (Denotes (wordsAt array words * Assertion.exactly caller)) elements arguments :=
    (denotes_of_mapM read).imp fun _ _ denotes => denotes.mul_left _
  rw [functionSession]
  refine Triple.call (runnerNew_triple Table collections program (words.map Prod.snd))
    (one_mul _).symm fun runner => ?_
  rw [mul_assoc]
  apply Triple.fact
  rintro rfl
  -- The calls before the function.
  have beside : ∀ running : Assertion Content, running *
      (wordsAt array words * (arrayAt stack storage elements * Assertion.exactly caller)) =
      running * (wordsAt array words * Assertion.exactly caller) *
        arrayAt stack storage elements := by
    intro running
    ac_rfl
  refine Triple.call (runnerPerformAll_like runner ghost denotes resolved) (beside _) ?_
  rintro ⟨responses, middle⟩
  rw [mul_assoc]
  apply Triple.fact
  rintro ⟨sameProgram, sameResponses⟩
  -- The function itself.
  have ready : ∀ running : Assertion Content,
      running * leaked collections (2 * calls.length) *
        (wordsAt array words * Assertion.exactly caller) * arrayAt stack storage elements =
      running * (arrayAt stack storage elements *
        (wordsAt array words * Assertion.exactly caller)) *
        leaked collections (2 * calls.length) := by
    intro running
    ac_rfl
  have denotesBefore : DenotesArray (wordsAt array words * Assertion.exactly caller)
      middle.program.data before.program.data := by
    rw [sameProgram, sameBefore]
    exact denotes.mul_right _
  refine Triple.call (runnerInitializeFunctionEntrypoint_like middle before denotesBefore
    denotedArguments fun _ => ⟨⟨rfl, rfl⟩, rfl⟩) (ready _) ?_
  rintro ⟨endPtr, called⟩
  rw [mul_assoc]
  apply Triple.fact
  rintro ⟨stillProgram, sameEnd⟩
  -- The calls after it.
  let kept := stackAfter platform collections caller stack storage elements *
    leaked collections 2 * leaked collections (2 * calls.length)
  have continued : ∀ running : Assertion Content,
      running * leaked collections 2 *
        (stackAfter platform collections caller stack storage elements *
          (wordsAt array words * Assertion.exactly caller)) *
        leaked collections (2 * calls.length) =
      running * (wordsAt array words * Assertion.exactly caller) * kept := by
    intro running
    simp only [kept]
    ac_rfl
  have denotesLater : DenotesArray (wordsAt array words) called.program.data
      entered.runner.program.data := by
    rw [stillProgram, sameProgram, program_functionEntrypoint, sameBefore]
    exact denotes
  refine Triple.call (runnerPerformAll_like called entered.runner denotesLater resolvedLater)
    (continued _) ?_
  rintro ⟨laterResponses, after⟩
  rw [mul_assoc]
  apply Triple.fact
  rintro ⟨finalProgram, sameLater⟩
  rw [runnerLike_eq, mul_assoc, mul_assoc, mul_assoc]
  apply Triple.fact
  intro registers
  have atLast : ∀ running : Assertion Content,
      running * (leaked collections (2 * later.length) *
        (wordsAt array words * Assertion.exactly caller * kept)) =
      running * (wordsAt array words *
        (leaked collections (2 * later.length) * kept * Assertion.exactly caller)) := by
    intro running
    ac_rfl
  rw [atLast]
  refine Triple.bind (runnerFree_triple after _ words ?_) fun _ => ?_
  · rw [finalProgram, stillProgram, sameProgram]
    exact data
  apply Triple.pure
  have gathered : leaked collections (2 * later.length) * kept =
      leaked collections (2 * calls.length) * leaked collections 2 *
        leaked collections (2 * later.length) *
        stackAfter platform collections caller stack storage elements := by
    simp only [kept]
    ac_rfl
  have few : leaked collections (2 * calls.length) * leaked collections 2 *
      leaked collections (2 * later.length) ≤
      leaked collections (2 * calls.length + 2 + 2 * later.length) :=
    (Assertion.mul_apply_mono (leaked_mul_le _ _) le_rfl).trans (leaked_mul_le _ _)
  rw [gathered, mul_assoc (fact _)]
  refine le_trans ?_ (Assertion.le_fact_mul (fun reliable => ⟨sameResponses reliable,
    sameEnd reliable, sameLater reliable, registers reliable⟩) _)
  exact Assertion.mul_apply_mono (Assertion.mul_apply_mono few le_rfl) le_rfl

/-- Whoever accesses the pointer accesses a block that is gone. -/
def Dangles (heap : Heap Content) (pointer : Pointer) : Prop :=
  (load pointer : Prog Content) heap = .error (.fault .danglingAccess)

omit [CCHashTable Table Relocatable MaybeRelocatable] [LawfulCCHashTable Table memoryConf] in
theorem dangles_of_notMem {heap : Heap Content} {address : Address}
    (gone : address ∉ heap) : Dangles heap (.target address) := by
  simp only [Dangles, load, Finmap.lookup_eq_none.mpr gone]

theorem PushesDangling.dangles {caller : Heap Content} {stack : Address}
    {elements grown : List Pointer} (pushes : PushesDangling caller stack elements grown)
    (block : Block Content) :
    ∃ returnFpMr endMr, grown = elements ++ [returnFpMr, endMr] ∧
      Dangles (caller.insert stack block) returnFpMr ∧
      Dangles (caller.insert stack block) endMr := by
  obtain ⟨returnFpMr, endMr, rfl, freshFp, freshEnd⟩ := pushes
  have gone : ∀ address, address ≠ stack ∧ address ∉ caller →
      Dangles (caller.insert stack block) (.target address) := by
    rintro address ⟨notStack, notCaller⟩
    apply dangles_of_notMem
    rw [Finmap.mem_insert]
    exact not_or.mpr ⟨notStack, notCaller⟩
  exact ⟨.target returnFpMr, .target endMr, rfl, gone _ freshFp, gone _ freshEnd⟩

variable (Table) in
/-- A function is entered between other calls of a session.  The runner is that over a
lawful table and gives back all it allocated; all the caller finds changed is its stack,
and the two pointers on top of it dangle. -/
theorem functionSession_stack (platform : Platform Content) (collections : Collections)
    [LawfulCollections platform collections memoryConf]
    {heap caller : Heap Content} {program : HeapProgram} {values : List MaybeRelocatable}
    {stack : Address} {storage : Storage} {elements : List Pointer}
    (owned : (programAt program.data values *
      (arrayAt stack storage elements * Assertion.exactly caller)) heap)
    {heapCalls heapLater : List (SessionCall Pointer)}
    {calls later : List (SessionCall Values)}
    (resolved : heapCalls.mapM (resolveRunnerCall caller) = some calls)
    (resolvedLater : heapLater.mapM (resolveRunnerCall caller) = some later)
    {arguments : List MaybeRelocatable}
    (read : elements.mapM (readValue caller) = some arguments)
    (entrypoint : UInt32) (returnFp : Relocatable) :
    (∃ session grown leaks,
      let left := caller.insert stack ⟨storage, .array grown⟩
      functionSession platform collections program heapCalls entrypoint (.target stack)
        returnFp heapLater heap = .ok (session, leaks ∪ left) ∧
      leaks.Disjoint left ∧
      leaks.keys.card ≤ 4 * (calls.length + 1 + later.length) ∧
      (¬collections.MayRefuse → leaks = ∅) ∧
      (Reliable platform collections →
        session.AgreesWith (CairoVM.runnerNew Table ⟨program.main, values⟩) calls entrypoint
          arguments returnFp later ∧
        ∃ returnFpMr endMr, grown = elements ++ [returnFpMr, endMr] ∧
          Dangles left returnFpMr ∧ Dangles left endMr)) ∨
    platform.MayFail ∧
      (functionSession platform collections program heapCalls entrypoint (.target stack)
          returnFp heapLater heap = .error (.fault .nullAccess) ∨
        functionSession platform collections program heapCalls entrypoint (.target stack)
          returnFp heapLater heap = .error (.fault .indeterminateAccess)) := by
  simp only [programAt, Quantale.iSup_mul_distrib, mul_assoc] at owned
  obtain ⟨⟨array, words⟩, ⟨data, rfl⟩, inside⟩ := iSup_fact_mul_apply.mp owned
  have triple := functionSession_triple Table platform collections words data resolved
    resolvedLater entrypoint stack storage read returnFp
  refine (run_of_triple triple inside).imp ?_ id
  rintro ⟨session, added, returned, apart, kept⟩
  rw [fact_mul_apply] at kept
  obtain ⟨agrees, leaks, stackPart, leaksApart, rfl, ⟨few, none⟩, after⟩ := kept
  obtain ⟨grown, pushes, rfl⟩ := iSup_fact_mul_apply.mp after
  rw [Finmap.disjoint_union_left] at apart
  have left : Finmap.singleton stack ⟨storage, .array grown⟩ ∪ caller =
      caller.insert stack ⟨storage, .array grown⟩ := (insert_eq_union _ _ _).symm
  refine ⟨session, grown, leaks, ?_, ?_, by omega, none, fun reliable =>
    ⟨agrees reliable, (pushes reliable).dangles _⟩⟩
  · rw [returned, Finmap.union_assoc, left]
  · rw [← left, Finmap.disjoint_union_right]
    exact ⟨leaksApart, apart.1⟩

/-- A caller with one argument for a function. -/
def argumentHeap : Heap Content :=
  Finmap.singleton 3 ⟨.dynamic, .maybeRelocatable (.relocatable ⟨1, 1⟩)⟩

/-- The stack of the caller holds the argument. -/
def stackHeap : Heap Content :=
  Finmap.singleton 2 ⟨.dynamic, .array [.target 3]⟩ ∪ argumentHeap

theorem functionSession_stack_one_argument : ∃ session returnFpMr endMr,
    functionSession (bumpPlatform Content) bumpCollections ⟨0, .target 0⟩
      [.entry .initializeSegments] 0 (.target 2) ⟨2, 0⟩ [.memory (.get ⟨1, 2⟩)]
      (arrayHeap ∪ stackHeap) =
      .ok (session, argumentHeap.insert 2
        ⟨.dynamic, .array [.target 3, returnFpMr, endMr]⟩) ∧
    session.laterResponses = [.memory (.got (.ok (.relocatable ⟨2, 0⟩)))] ∧
    Dangles (argumentHeap.insert 2 ⟨.dynamic, .array [.target 3, returnFpMr, endMr]⟩)
      endMr := by
  have owned : (programAt (HeapProgram.mk 0 (.target 0)).data [.relocatable ⟨0, 5⟩] *
      (arrayAt 2 .dynamic [.target 3] * Assertion.exactly argumentHeap))
      (arrayHeap ∪ stackHeap) := by
    refine ⟨arrayHeap, stackHeap, ?_, rfl, programAt_arrayHeap, _, _, ?_, rfl, rfl, rfl⟩
    · decide
    · decide
  have resolved : [RunnerCall.entry .initializeSegments].mapM
      (resolveRunnerCall argumentHeap) = some [.entry .initializeSegments] := rfl
  have resolvedLater : [RunnerCall.memory (MemoryCall.get ⟨1, 2⟩)].mapM
      (resolveRunnerCall argumentHeap) = some [.memory (.get ⟨1, 2⟩)] := rfl
  have read : [Pointer.target 3].mapM (readValue argumentHeap) =
      some [.relocatable ⟨1, 1⟩] := rfl
  rcases functionSession_stack CellTable (bumpPlatform Content) bumpCollections owned resolved
      resolvedLater read 0 ⟨2, 0⟩ with
    ⟨session, grown, leaks, returned, -, -, none, agrees⟩ | ⟨mayFail, -⟩
  · obtain ⟨⟨-, -, later, -⟩, returnFpMr, endMr, rfl, -, dangles⟩ := agrees reliable_growing
    rw [none not_mayRefuse_growing, Finmap.empty_union] at returned
    exact ⟨session, returnFpMr, endMr, returned, later, dangles⟩
  · exact absurd mayFail (not_mayFail_bumpPlatform Content)

end CairoVM.OnHeap
