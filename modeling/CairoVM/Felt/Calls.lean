import Mathlib.Tactic.IntervalCases
import CairoVM.Felt.Arithmetic
import CairoVM.Model.FeltCalls

/-!
# Sequences of calls on felts

Calls that use the same arrays again and again, as operands and as results, compute in
the field like assignments to variables, provided that two arrays are the same or have no
word in common.
-/

namespace CairoVM

/-! ## Arrays of words -/

theorem storeLimbs_apply (words : Words) (representative : FeltT) (limbs address : Nat) :
    storeLimbs words representative limbs address =
      if address = limbs + 3 then representative.get 3
      else if address = limbs + 2 then representative.get 2
      else if address = limbs + 1 then representative.get 1
      else if address = limbs then representative.get 0
      else words address := by
  have indices : List.finRange 4 = [0, 1, 2, 3] := rfl
  simp only [storeLimbs, indices, List.foldl_cons, List.foldl_nil, Function.update_apply]
  rfl

/-- The result is written as a whole. -/
theorem limbsAt_storeLimbs (words : Words) (representative : FeltT) (limbs : Nat) :
    limbsAt (storeLimbs words representative limbs) limbs = representative := by
  have whole : representative = #v[representative.get 0, representative.get 1,
      representative.get 2, representative.get 3] := by
    apply Vector.ext
    intro index bound
    interval_cases index
    all_goals rfl
  simp only [limbsAt, storeLimbs_apply]
  conv_rhs => rw [whole]
  simp

/-- Nothing else is written. -/
theorem storeLimbs_of_outside {words : Words} {representative : FeltT}
    {limbs address : Nat} (outside : address < limbs ∨ limbs + 4 ≤ address) :
    storeLimbs words representative limbs address = words address := by
  rw [storeLimbs_apply, if_neg (by omega), if_neg (by omega), if_neg (by omega),
    if_neg (by omega)]

/-- Two arrays have no word in common. -/
def Apart (first second : Nat) : Prop := first + 4 ≤ second ∨ second + 4 ≤ first

theorem limbsAt_storeLimbs_of_apart {words : Words} {representative : FeltT}
    {limbs other : Nat} (apart : Apart limbs other) :
    limbsAt (storeLimbs words representative limbs) other = limbsAt words other := by
  rw [Apart] at apart
  simp only [limbsAt]
  rw [storeLimbs_of_outside (by omega), storeLimbs_of_outside (by omega),
    storeLimbs_of_outside (by omega), storeLimbs_of_outside (by omega)]

namespace FeltCall

/-! ## Calls as assignments -/

/-- A field element for every array. -/
abbrev Elements := Nat → ZMod cairoPrime

/-- What the arrays denote. -/
def elementsOf (words : Words) : Elements := fun limbs => limbsElement (limbsAt words limbs)

/-- The value of a call in the field. -/
def value (elements : Elements) : FeltCall → ZMod cairoPrime
  | fromU64 _ value => value.toNat
  | zero _ => 0
  | one _ => 1
  | add a b _ => elements a + elements b
  | sub a b _ => elements a - elements b
  | mul a b _ => elements a * elements b
  | lwDiv a b _ => elements a / elements b

/-- The call does not divide by zero. -/
def NonzeroDivisor (elements : Elements) : FeltCall → Prop
  | lwDiv _ b _ => elements b ≠ 0
  | _ => True

/-- The assignment that a call amounts to. -/
def assign (elements : Elements) (call : FeltCall) : Elements :=
  Function.update elements call.result (call.value elements)

/-- The values after a sequence of assignments. -/
def assignAll (elements : Elements) (calls : List FeltCall) : Elements :=
  Machine.run assign elements calls

/-- No division by zero along a sequence of assignments. -/
def NonzeroDivisors (elements : Elements) (calls : List FeltCall) : Prop :=
  Machine.Always assign NonzeroDivisor elements calls

/-- The pointers of a call. -/
def arrays (call : FeltCall) : List Nat := call.result :: call.operands

section

variable {Felt : Type} [Stark252Field Felt] [LawfulStark252Field Felt]

/-- The value only depends on the operands. -/
theorem value_congr {elements others : Elements} {call : FeltCall}
    (same : ∀ limbs ∈ call.operands, elements limbs = others limbs) :
    call.value elements = call.value others := by
  cases call <;> simp_all [value, operands]

theorem nonzeroDivisor_congr {elements others : Elements} {call : FeltCall}
    (same : ∀ limbs ∈ call.operands, elements limbs = others limbs) :
    call.NonzeroDivisor elements ↔ call.NonzeroDivisor others := by
  cases call <;> simp_all [NonzeroDivisor, operands]

/-- A call computes the canonical limbs of its value. -/
theorem limbs_eq {words : Words} {call : FeltCall}
    (divisor : call.NonzeroDivisor (elementsOf words)) :
    call.limbs Felt words = some (canonicalLimbs (call.value (elementsOf words))) := by
  cases call with
  | fromU64 result value => exact congrArg some (feltFrom_eq value)
  | zero result => exact congrArg some feltZero_eq
  | one result => exact congrArg some feltOne_eq
  | add a b result => exact congrArg some (feltAdd_eq _ _)
  | sub a b result => exact congrArg some (feltSub_eq _ _)
  | mul a b result => exact congrArg some (feltMul_eq _ _)
  | lwDiv a b result => exact lwDiv_eq _ divisor

theorem exec_eq {words : Words} {call : FeltCall}
    (divisor : call.NonzeroDivisor (elementsOf words)) :
    call.exec Felt words =
      some (storeLimbs words (canonicalLimbs (call.value (elementsOf words)))
        call.result) := by
  rw [exec, limbs_eq divisor]
  rfl

end

/-! ## Sequences of calls -/

/-- What holds of the words of some arrays after calls that wrote some of them. -/
structure Holds (places : List Nat) (start : Words) (elements : Elements)
    (results : List Nat) (words : Words) : Prop where
  denotes : ∀ limbs ∈ places, limbsElement (limbsAt words limbs) = elements limbs
  canonical : ∀ limbs ∈ results, limbsAt words limbs = canonicalLimbs (elements limbs)
  unchanged : ∀ address, (∀ limbs ∈ results, address < limbs ∨ limbs + 4 ≤ address) →
    words address = start address

/-- Arrays that are the same or have no word in common. -/
def Separated (places : List Nat) : Prop :=
  ∀ first ∈ places, ∀ second ∈ places, first = second ∨ Apart first second

theorem Holds.initially (places : List Nat) (words : Words) :
    Holds places words (elementsOf words) [] words where
  denotes _ _ := rfl
  canonical _ member := nomatch member
  unchanged _ _ := rfl

variable (Felt : Type) [Stark252Field Felt] [LawfulStark252Field Felt]

/-- One more call. -/
theorem Holds.step {places results : List Nat} {start words : Words} {elements : Elements}
    {call : FeltCall} (holds : Holds places start elements results words)
    (separated : Separated places) (inside : ∀ limbs ∈ call.arrays, limbs ∈ places)
    (earlier : ∀ limbs ∈ results, limbs ∈ places)
    (divisor : call.NonzeroDivisor elements) :
    ∃ after, call.exec Felt words = some after ∧
      Holds places start (assign elements call) (call.result :: results) after := by
  have sameOperands : ∀ limbs ∈ call.operands, elementsOf words limbs = elements limbs :=
    fun limbs member => holds.denotes limbs (inside limbs (List.mem_cons_of_mem _ member))
  refine ⟨_, exec_eq ((nonzeroDivisor_congr sameOperands).mpr divisor), ?_⟩
  rw [value_congr sameOperands]
  have target : call.result ∈ places := inside _ List.mem_cons_self
  have written := limbsAt_storeLimbs words (canonicalLimbs (call.value elements)) call.result
  have kept : ∀ limbs ∈ places, limbs ≠ call.result →
      limbsAt (storeLimbs words (canonicalLimbs (call.value elements)) call.result) limbs =
        limbsAt words limbs := by
    intro limbs member other
    exact limbsAt_storeLimbs_of_apart
      ((separated _ target _ member).resolve_left (Ne.symm other))
  constructor
  · intro limbs member
    by_cases same : limbs = call.result
    · rw [same, written, limbsElement_canonicalLimbs, assign, Function.update_self]
    · rw [kept limbs member same, holds.denotes limbs member, assign,
        Function.update_of_ne same]
  · intro limbs member
    by_cases same : limbs = call.result
    · rw [same, written, assign, Function.update_self]
    · have before := (List.mem_cons.mp member).resolve_left same
      rw [kept limbs (earlier limbs before) same, holds.canonical limbs before, assign,
        Function.update_of_ne same]
  · intro address outside
    rw [storeLimbs_of_outside (outside _ List.mem_cons_self)]
    exact holds.unchanged address fun limbs member =>
      outside limbs (List.mem_cons_of_mem _ member)

/-- A sequence of calls. -/
theorem Holds.run {places results : List Nat} {start words : Words} {elements : Elements}
    {calls : List FeltCall} (holds : Holds places start elements results words)
    (separated : Separated places)
    (inside : ∀ call ∈ calls, ∀ limbs ∈ call.arrays, limbs ∈ places)
    (earlier : ∀ limbs ∈ results, limbs ∈ places)
    (divisors : NonzeroDivisors elements calls) :
    ∃ after, execAll Felt words calls = some after ∧
      Holds places start (assignAll elements calls) ((calls.map result).reverse ++ results)
        after := by
  induction calls generalizing words elements results with
  | nil => exact ⟨words, rfl, holds⟩
  | cons call calls ih =>
      obtain ⟨divisor, divisors⟩ := divisors
      have here := inside call List.mem_cons_self
      obtain ⟨middle, ran, holds⟩ := holds.step Felt separated here earlier divisor
      have earlier : ∀ limbs ∈ call.result :: results, limbs ∈ places := by
        intro limbs member
        rcases List.mem_cons.mp member with rfl | member
        · exact here _ List.mem_cons_self
        · exact earlier limbs member
      obtain ⟨after, later, holds⟩ := ih holds
        (fun other member => inside other (List.mem_cons_of_mem call member)) earlier divisors
      refine ⟨after, ?_, ?_⟩
      · rw [execAll, List.foldlM_cons, ran]
        exact later
      · rwa [List.map_cons, List.reverse_cons, List.append_assoc, List.singleton_append]

end FeltCall

open FeltCall in
/-- Calls of the felt functions on arrays that are the same or have no word in common, in
any order and with any of them in several places at once, leave the canonical limbs of
what assignments in the field would leave: nothing panics without a division by zero,
`felt_equal` decides the equality of two results, as does `maybe_relocatable_equal` on
values made of them, and all other words are as before. -/
theorem feltCalls_exact (Felt : Type) [Stark252Field Felt] [LawfulStark252Field Felt]
    (words : Words) (calls : List FeltCall) (separated : Separated (calls.flatMap arrays))
    (divisors : NonzeroDivisors (elementsOf words) calls) :
    ∃ after, execAll Felt words calls = some after ∧
      (∀ limbs ∈ calls.flatMap arrays,
        limbsElement (limbsAt after limbs) = assignAll (elementsOf words) calls limbs) ∧
      (∀ limbs ∈ calls.map result,
        limbsAt after limbs = canonicalLimbs (assignAll (elementsOf words) calls limbs)) ∧
      (∀ first ∈ calls.map result, ∀ second ∈ calls.map result,
        (feltEqual (limbsAt after first) (limbsAt after second) = true ↔
          assignAll (elementsOf words) calls first =
            assignAll (elementsOf words) calls second) ∧
        (maybeRelocatableEqual (maybeRelocatableFromFeltLimbs after first)
            (maybeRelocatableFromFeltLimbs after second) = true ↔
          assignAll (elementsOf words) calls first =
            assignAll (elementsOf words) calls second)) ∧
      ∀ address, (∀ limbs ∈ calls.map result, address < limbs ∨ limbs + 4 ≤ address) →
        after address = words address := by
  have inside : ∀ call ∈ calls, ∀ limbs ∈ call.arrays, limbs ∈ calls.flatMap arrays :=
    fun call member limbs pointer => List.mem_flatMap.mpr ⟨call, member, pointer⟩
  obtain ⟨after, ran, holds⟩ := (Holds.initially _ words).run Felt separated inside
    (fun _ member => nomatch member) divisors
  have canonical : ∀ limbs ∈ calls.map result,
      limbsAt after limbs = canonicalLimbs (assignAll (elementsOf words) calls limbs) :=
    fun limbs member => holds.canonical limbs (by simpa using member)
  refine ⟨after, ran, holds.denotes, canonical, ?_, ?_⟩
  · intro first firstMember second secondMember
    have equal : feltEqual (limbsAt after first) (limbsAt after second) = true ↔
        assignAll (elementsOf words) calls first =
          assignAll (elementsOf words) calls second := by
      rw [feltEqual_iff, canonical first firstMember, canonical second secondMember,
        canonicalLimbs_inj]
    exact ⟨equal, equal⟩
  · intro address outside
    exact holds.unchanged address fun limbs member => outside limbs (by simpa using member)

/-- The array at 0 is doubled in place, squared, and divides its square. -/
theorem feltCalls_exact_in_place : ∃ after,
    FeltCall.execAll (ZMod cairoPrime) (fun _ => 0)
      [.one 0, .add 0 0 0, .mul 0 0 4, .lwDiv 4 0 0] = some after ∧
    limbsAt after 0 = canonicalLimbs 2 ∧ after 8 = 0 := by
  have two : (1 + 1 : ZMod cairoPrime) ≠ 0 := by decide +kernel
  have separated : FeltCall.Separated
      ([.one 0, .add 0 0 0, .mul 0 0 4, .lwDiv 4 0 0].flatMap FeltCall.arrays) := by
    unfold FeltCall.Separated Apart
    decide
  have divisors : FeltCall.NonzeroDivisors (FeltCall.elementsOf fun _ => 0)
      [.one 0, .add 0 0 0, .mul 0 0 4, .lwDiv 4 0 0] :=
    ⟨trivial, trivial, trivial, two, trivial⟩
  obtain ⟨after, ran, -, canonical, -, unchanged⟩ :=
    feltCalls_exact (ZMod cairoPrime) (fun _ => 0) _ separated divisors
  refine ⟨after, ran, ?_, unchanged 8 (by decide)⟩
  rw [canonical 0 (by decide)]
  have quotient : (1 + 1) * (1 + 1) / (1 + 1) = (2 : ZMod cairoPrime) := by
    rw [mul_div_cancel_right₀ _ two, one_add_one_eq_two]
  exact congrArg canonicalLimbs quotient

end CairoVM
