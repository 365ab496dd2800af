import Mathlib.Data.List.Perm.Basic
import CairoVM.Memory.Refinement

/-!
# Reordering writes

Inserts and loads that all succeed may be executed in any other order.  Success of
the whole collection is a condition on the set of cells it writes, so it survives
every permutation, and so does the memory it leads to.
-/

namespace CairoVM

open WriteOnce

variable {Table : Type} [CCHashTable Table Relocatable MaybeRelocatable]

/-- The call returned no error. -/
def WriteResult.Succeeded : WriteResult → Prop
  | .inserted result => result = .ok ()
  | .loaded result => ∃ endPtr, result = .ok endPtr

namespace WriteCall

/-- The memory after executing calls in order. -/
def execAll (mem : Memory Table) (calls : List (WriteCall Values)) : Memory Table :=
  Machine.run (fun state call => (exec state call).2) mem calls

/-- The calls of an execution, each with what it returned. -/
def results (mem : Memory Table) (calls : List (WriteCall Values)) :
    List (WriteCall Values × WriteResult) :=
  Machine.log (fun state call => (exec state call).2)
    (fun state call => [(call, (exec state call).1)]) mem calls

/-- Every call of an execution succeeds. -/
def AllSucceed (mem : Memory Table) (calls : List (WriteCall Values)) : Prop :=
  ∀ entry ∈ results mem calls, entry.2.Succeeded

/-- The writes that a call attempts. -/
def writes : WriteCall Values → List (Relocatable × MaybeRelocatable)
  | .insert ptr value => [(ptr, value)]
  | .loadData ptr data => loadWrites ptr data

/-- What a call returns when it succeeds. -/
def okResult : WriteCall Values → WriteResult
  | .insert _ _ => .inserted (.ok ())
  | .loadData ptr data => .loaded (.ok (ptr.advance data.length))

variable [LawfulCCHashTable Table memoryConf]

@[simp] theorem numSegments_exec (mem : Memory Table) (call : WriteCall Values) :
    (exec mem call).2.numSegments = mem.numSegments := by
  cases call <;> simp [exec]

/-- A call succeeds exactly when its writes are all accepted. -/
theorem succeeded_exec_iff (mem : Memory Table) (call : WriteCall Values) :
    (exec mem call).1.Succeeded ↔
      (∀ write ∈ call.writes, Created mem.numSegments write.1) ∧
        Consistent (cells mem) call.writes := by
  cases call with
  | insert ptr value =>
      rw [writes, ← attempt_fst_iff, attempt, attempt]
      change (memoryInsert mem ptr value).1 = .ok () ↔ _
      rw [memoryInsert_ok_iff]
      split <;> simp_all
  | loadData ptr data =>
      change (∃ endPtr, (memoryLoadData mem ptr data).1 = .ok endPtr) ↔ _
      simp [memoryLoadData_ok_iff, writes]

/-- A successful call returns what its arguments determine and performs its
writes. -/
theorem exec_of_succeeded {mem : Memory Table} {call : WriteCall Values}
    (succeeded : (exec mem call).1.Succeeded) :
    (exec mem call).1 = call.okResult ∧
      cells (exec mem call).2 = putAll (cells mem) call.writes := by
  cases call with
  | insert ptr value =>
      change (memoryInsert mem ptr value).1 = .ok () at succeeded
      refine ⟨congrArg WriteResult.inserted succeeded, ?_⟩
      exact cells_memoryInsert_of_accepted (memoryInsert_ok_iff.mp succeeded)
  | loadData ptr data =>
      obtain ⟨endPtr, ok⟩ := succeeded
      change (memoryLoadData mem ptr data).1 = .ok endPtr at ok
      obtain ⟨atEnd, accepted⟩ := memoryLoadData_ok_iff.mp ok
      refine ⟨congrArg WriteResult.loaded (atEnd ▸ ok), ?_⟩
      exact (cells_memoryLoadData mem ptr data).trans
        (attempt_snd_of_accepted _ ((attempt_fst_iff _ _ _).mpr accepted))

/-- An execution succeeds throughout exactly when all its writes go to created
segments and are consistent with the memory it starts from.  The condition does not
mention the order of the calls. -/
theorem allSucceed_iff (mem : Memory Table) (calls : List (WriteCall Values)) :
    AllSucceed mem calls ↔
      (∀ write ∈ calls.flatMap writes, Created mem.numSegments write.1) ∧
        Consistent (cells mem) (calls.flatMap writes) := by
  induction calls generalizing mem with
  | nil => simp [AllSucceed, results]
  | cons call calls ih =>
      have unfolded : AllSucceed mem (call :: calls) ↔
          (exec mem call).1.Succeeded ∧ AllSucceed (exec mem call).2 calls := by
        simp [AllSucceed, results]
      rw [unfolded, ih, numSegments_exec, List.flatMap_cons, List.forall_mem_append,
        consistent_append_iff]
      constructor
      · rintro ⟨succeeded, created, consistent⟩
        rw [(exec_of_succeeded succeeded).2] at consistent
        obtain ⟨headCreated, headConsistent⟩ := (succeeded_exec_iff mem call).mp succeeded
        exact ⟨⟨headCreated, created⟩, headConsistent, consistent⟩
      · rintro ⟨⟨headCreated, created⟩, headConsistent, consistent⟩
        have succeeded := (succeeded_exec_iff mem call).mpr ⟨headCreated, headConsistent⟩
        rw [(exec_of_succeeded succeeded).2]
        exact ⟨succeeded, created, consistent⟩

/-- The results and the memory of an execution that succeeds throughout. -/
theorem execAll_of_allSucceed {mem : Memory Table} {calls : List (WriteCall Values)}
    (succeed : AllSucceed mem calls) :
    results mem calls = calls.map (fun call => (call, call.okResult)) ∧
      (execAll mem calls).numSegments = mem.numSegments ∧
      cells (execAll mem calls) = putAll (cells mem) (calls.flatMap writes) := by
  induction calls generalizing mem with
  | nil => exact ⟨rfl, rfl, rfl⟩
  | cons call calls ih =>
      have head : (exec mem call).1.Succeeded :=
        succeed _ (List.mem_append_left _ (List.mem_singleton.mpr rfl))
      have tail : AllSucceed (exec mem call).2 calls :=
        fun entry member => succeed entry (List.mem_append_right _ member)
      obtain ⟨returned, stored⟩ := exec_of_succeeded head
      obtain ⟨tailResults, tailSegments, tailCells⟩ := ih tail
      refine ⟨?_, ?_, ?_⟩
      · rw [List.map_cons, ← returned, ← tailResults]
        rfl
      · exact tailSegments.trans (numSegments_exec mem call)
      · rw [List.flatMap_cons, putAll_append, ← stored]
        exact tailCells

/-- If a collection of inserts and loads succeeds throughout in one order, it does
so in every order, each call returns the same, and the memories at the end cannot
be told apart. -/
theorem writes_commute (mem : Memory Table) {calls others : List (WriteCall Values)}
    (reordered : calls.Perm others) (succeed : AllSucceed mem calls) :
    AllSucceed mem others ∧
      (results mem calls).Perm (results mem others) ∧
      (∀ call result result', (call, result) ∈ results mem calls →
        (call, result') ∈ results mem others → result = result') ∧
      (execAll mem others).numSegments = (execAll mem calls).numSegments ∧
      ∀ ptr, memoryGet (execAll mem others) ptr = memoryGet (execAll mem calls) ptr := by
  have sameWrites : (calls.flatMap writes).Perm (others.flatMap writes) :=
    reordered.flatMap_right writes
  obtain ⟨created, consistent⟩ := (allSucceed_iff mem calls).mp succeed
  have succeed' : AllSucceed mem others :=
    (allSucceed_iff mem others).mpr
      ⟨fun write member => created write (sameWrites.mem_iff.mpr member),
        consistent.perm sameWrites⟩
  obtain ⟨returned, segments, stored⟩ := execAll_of_allSucceed succeed
  obtain ⟨returned', segments', stored'⟩ := execAll_of_allSucceed succeed'
  refine ⟨succeed', ?_, ?_, segments'.trans segments.symm, ?_⟩
  · rw [returned, returned']
    exact reordered.map _
  · intro call result result' member member'
    rw [returned, List.mem_map] at member
    rw [returned', List.mem_map] at member'
    obtain ⟨source, -, sourceEq⟩ := member
    obtain ⟨source', -, sourceEq'⟩ := member'
    cases sourceEq
    cases sourceEq'
    rfl
  · intro ptr
    apply memoryGet_congr
    rw [stored, stored', consistent.putAll_perm sameWrites]

/-- A load and an insert that overlap in one cell, in both orders. -/
theorem writes_commute_overlapping :
    AllSucceed (memoryRun CellTable [.addSegment])
      [.insert ⟨0, 1⟩ (.relocatable ⟨4, 4⟩),
        .loadData ⟨0, 0⟩ [.relocatable ⟨3, 3⟩, .relocatable ⟨4, 4⟩]] := by
  refine (writes_commute (memoryRun CellTable [.addSegment])
    (List.Perm.swap (.insert ⟨0, 1⟩ (.relocatable ⟨4, 4⟩))
      (.loadData ⟨0, 0⟩ [.relocatable ⟨3, 3⟩, .relocatable ⟨4, 4⟩]) []) ?_).1
  intro entry member
  rcases List.mem_cons.mp member with rfl | member
  · exact ⟨⟨0, 2⟩, rfl⟩
  · rcases List.mem_singleton.mp member with rfl
    exact rfl

end WriteCall

end CairoVM
