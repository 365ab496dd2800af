import Mathlib.Algebra.BigOperators.Group.Finset.Basic
import CairoVM.OnHeap.Runner

/-!
# Several memories in one heap

A program may have any number of memories, and create, use and free them in any order.
No memory notices the others: each of them answers as if it were alone, and what it
allocated is given back when it is freed.
-/

namespace CairoVM.OnHeap

open HeapLogic
open Machine (memberStep memberEmit ofMember)
open Assertion (fact)
open scoped BigOperators

variable {Table : Type} [CCHashTable Table Relocatable MaybeRelocatable]
  {platform : Platform Content} {collections : Collections}
  {Handle : Type} [DecidableEq Handle]

/-! ## The blocks of the memories -/

/-- The blocks of a memory, if there is one. -/
def slotAt (platform : Platform Content) (collections : Collections) (alive : Bool)
    (mem : HeapMemory) (ghost : Memory Table) : Assertion Content :=
  if alive then memoryLike platform collections mem ghost else 1

/-- The blocks of all memories. -/
def poolAt [Fintype Handle] (platform : Platform Content) (collections : Collections)
    (alive : Handle → Bool) (mems : Handle → HeapMemory) (ghosts : Handle → Memory Table) :
    Assertion Content :=
  ∏ handle, slotAt platform collections (alive handle) (mems handle) (ghosts handle)

variable (platform collections) in
/-- One memory, and all others. -/
theorem exists_poolAt_eq [Fintype Handle] (alive : Handle → Bool)
    (mems : Handle → HeapMemory) (ghosts : Handle → Memory Table) (handle : Handle) :
    ∃ others : Assertion Content,
      poolAt platform collections alive mems ghosts =
        slotAt platform collections (alive handle) (mems handle) (ghosts handle) * others ∧
      ∀ alive' mem ghost,
        poolAt platform collections (Function.update alive handle alive')
          (Function.update mems handle mem) (Function.update ghosts handle ghost) =
        slotAt platform collections alive' mem ghost * others := by
  refine ⟨_, (Finset.mul_prod_erase _ _ (Finset.mem_univ handle)).symm, ?_⟩
  intro alive' mem ghost
  rw [poolAt, ← Finset.mul_prod_erase _ _ (Finset.mem_univ handle)]
  simp only [Function.update_self]
  refine congrArg _ (Finset.prod_congr rfl fun other member => ?_)
  have different := Finset.ne_of_mem_erase member
  simp only [Function.update_of_ne different]

/-! ## Interleaved lives -/

/-- The call that a call with pointers means in the heap of the caller. -/
def resolveLife (heap : Heap Content) :
    Handle × LifeCall (MemoryCall Pointer) → Option (Handle × LifeCall (MemoryCall Values))
  | (handle, .create) => some (handle, .create)
  | (handle, .call call) => (resolveCall heap call).map fun call => (handle, .call call)
  | (handle, .free) => some (handle, .free)

variable [LawfulCCHashTable Table memoryConf]
  [LawfulCollections platform collections memoryConf]

theorem poolPerform_like [Fintype Handle] {caller : Heap Content} (alive : Handle → Bool)
    (mems : Handle → HeapMemory) (ghosts : Handle → Memory Table)
    {heapCall : Handle × LifeCall (MemoryCall Pointer)}
    {call : Handle × LifeCall (MemoryCall Values)}
    (proper : call.2.Proper (alive call.1))
    (resolved : resolveLife caller heapCall = some call) :
    Triple (AllocationFault platform)
      (poolAt platform collections alive mems ghosts * Assertion.exactly caller)
      (poolPerform platform collections mems heapCall)
      fun outcome =>
        fact (Reliable platform collections → outcome.1 = memberEmit lifeEmit ghosts call) *
          (poolAt platform collections (memberStep LifeCall.aliveAfter alive call) outcome.2
              (memberStep lifeStep ghosts call) *
            leaked collections 1 * Assertion.exactly caller) := by
  obtain ⟨handle, heapCall⟩ := heapCall
  obtain ⟨others, split, update⟩ :=
    exists_poolAt_eq platform collections alive mems ghosts handle
  cases heapCall with
  | create =>
      obtain rfl := Option.some.inj resolved
      have isFree : alive handle = false := proper
      have before : poolAt platform collections alive mems ghosts = others := by
        rw [split, isFree]
        exact one_mul others
      have after (mem : HeapMemory) : poolAt platform collections
          (memberStep LifeCall.aliveAfter alive
            (handle, (.create : LifeCall (MemoryCall Values))))
          (Function.update mems handle mem) (memberStep lifeStep ghosts (handle, .create)) =
          memoryLike platform collections mem (CairoVM.memoryNew Table) * others :=
        update true mem (CairoVM.memoryNew Table)
      rw [before, poolPerform]
      refine Triple.call (memoryNew_like Table collections) (one_mul _).symm fun mem => ?_
      apply Triple.pure
      refine le_trans ?_ (Assertion.le_fact_mul (fun _ => rfl) _)
      rw [after, ← mul_assoc]
      exact Assertion.mul_apply_mono (le_mul_leaked _ 1) le_rfl
  | call heapCall =>
      obtain ⟨call, resolvedCall, rfl⟩ := Option.map_eq_some_iff.mp resolved
      have isAlive : alive handle = true := proper
      have before : poolAt platform collections alive mems ghosts =
          memoryLike platform collections (mems handle) (ghosts handle) * others := by
        rw [split, isAlive]
        rfl
      have after (mem : HeapMemory) : poolAt platform collections
          (memberStep LifeCall.aliveAfter alive (handle, .call call))
          (Function.update mems handle mem)
          (memberStep lifeStep ghosts (handle, .call call)) =
          memoryLike platform collections mem
            (CairoVM.memoryPerform (ghosts handle) call).2 * others := by
        refine Eq.trans ?_ (update true mem (CairoVM.memoryPerform (ghosts handle) call).2)
        rw [memberStep, LifeCall.aliveAfter, isAlive]
        rfl
      rw [before, poolPerform]
      refine Triple.call (memoryPerform_like (mems handle) (ghosts handle) resolvedCall)
        (mul_right_comm _ _ _) ?_
      rintro ⟨response, mem⟩
      rw [mul_assoc, mul_assoc]
      apply Triple.fact
      intro sameResponse
      apply Triple.pure
      refine le_trans ?_ (Assertion.le_fact_mul (fun reliable => ?_) _)
      · rw [after]
        apply le_of_eq
        ac_rfl
      · exact congrArg (fun response => [(handle, response)]) (sameResponse reliable)
  | free =>
      obtain rfl := Option.some.inj resolved
      have isAlive : alive handle = true := proper
      have before : poolAt platform collections alive mems ghosts =
          memoryLike platform collections (mems handle) (ghosts handle) * others := by
        rw [split, isAlive]
        rfl
      have after : poolAt platform collections
          (memberStep LifeCall.aliveAfter alive
            (handle, (.free : LifeCall (MemoryCall Values))))
          mems (memberStep lifeStep ghosts (handle, .free)) = others := by
        have updated := update false (mems handle) (ghosts handle)
        rw [Function.update_eq_self handle mems] at updated
        exact updated.trans (one_mul others)
      rw [before, poolPerform]
      refine Triple.call (memoryFree_like (mems handle) (ghosts handle)) (mul_assoc _ _ _)
        fun _ => ?_
      rw [one_mul]
      apply Triple.pure
      refine le_trans ?_ (Assertion.le_fact_mul (fun _ => rfl) _)
      rw [after]
      exact Assertion.mul_apply_mono (le_mul_leaked _ 1) le_rfl

/-- Lives that are interleaved, one operation at a time. -/
theorem poolPerformAll_like [Fintype Handle] {caller : Heap Content}
    (alive : Handle → Bool) (mems : Handle → HeapMemory) (ghosts : Handle → Memory Table)
    {heapCalls : List (Handle × LifeCall (MemoryCall Pointer))}
    {calls : List (Handle × LifeCall (MemoryCall Values))}
    (proper : Machine.Always (memberStep LifeCall.aliveAfter)
      (fun alive call => call.2.Proper (alive call.1)) alive calls)
    (resolved : heapCalls.mapM (resolveLife caller) = some calls) :
    Triple (AllocationFault platform)
      (poolAt platform collections alive mems ghosts * Assertion.exactly caller)
      (poolPerformAll platform collections mems heapCalls)
      fun outcome =>
        fact (Reliable platform collections →
            outcome.1 = Machine.log (memberStep lifeStep) (memberEmit lifeEmit) ghosts calls) *
          (poolAt platform collections
              (Machine.run (memberStep LifeCall.aliveAfter) alive calls) outcome.2
              (Machine.run (memberStep lifeStep) ghosts calls) *
            leaked collections calls.length * Assertion.exactly caller) := by
  induction heapCalls generalizing alive mems ghosts calls with
  | nil =>
      rw [List.mapM_nil] at resolved
      obtain rfl := Option.some.inj resolved
      apply Triple.pure
      refine le_trans ?_ (Assertion.le_fact_mul (fun _ => rfl) _)
      rw [List.length_nil, leaked_zero, mul_one]
      exact le_rfl
  | cons heapCall rest ih =>
      obtain ⟨call, first, calls, others, rfl⟩ := Failing.mapM_cons_eq_some_iff.mp resolved
      obtain ⟨now, later⟩ := proper
      refine Triple.bind (poolPerform_like alive mems ghosts now first) ?_
      rintro ⟨responses, middle⟩
      apply Triple.fact
      intro sameResponses
      refine Triple.call (ih _ middle _ later others) (mul_right_comm _ _ _) ?_
      rintro ⟨laterResponses, after⟩
      rw [mul_assoc]
      apply Triple.fact
      intro sameLater
      apply Triple.pure
      refine le_trans ?_ (Assertion.le_fact_mul (fun reliable => ?_) _)
      · rw [mul_right_comm, mul_assoc (poolAt _ _ _ _ _)]
        refine Assertion.mul_apply_mono (Assertion.mul_apply_mono le_rfl ?_) le_rfl
        exact leaked_mul_le calls.length 1
      · exact congrArg₂ (· ++ ·) (sameResponses reliable) (sameLater reliable)

/-- Two memories with a cell at the same address, of which one is freed early. -/
def twoLives : List (Bool × LifeCall (MemoryCall Pointer)) :=
  [(true, .create), (false, .create), (true, .call .addSegment), (false, .call .addSegment),
    (true, .call (.insert ⟨0, 0⟩ (.relocatable ⟨1, 1⟩))),
    (false, .call (.insert ⟨0, 0⟩ (.relocatable ⟨2, 2⟩))), (true, .free),
    (false, .call (.get ⟨0, 0⟩)), (false, .free)]

end CairoVM.OnHeap
