import CairoVM.Felt.Arithmetic
import CairoVM.Memory.Segments

/-!
# Expressions over the C felt functions

An expression passes every intermediate result through a limb array.  As long as no
divisor is zero, the array of its result holds the canonical limbs of its value in the
field, so comparing the arrays limb by limb, as the overwrite guard of the memory does,
compares the values.
-/

namespace CairoVM

/-- An expression built from the C functions that produce felts. -/
inductive FeltExpr where
  | fromU64 (integer : UInt64)
  | zero
  | one
  | add (a b : FeltExpr)
  | sub (a b : FeltExpr)
  | mul (a b : FeltExpr)
  | lwDiv (a b : FeltExpr)

namespace FeltExpr

/-- The limb array that the calls leave behind, unless a division panics. -/
def run (Felt : Type) [Stark252Field Felt] : FeltExpr → Option FeltT
  | .fromU64 integer => some (feltFrom Felt integer)
  | .zero => some (feltZero Felt)
  | .one => some (feltOne Felt)
  | .add a b => do
      let aLimbs ← a.run Felt
      let bLimbs ← b.run Felt
      return feltAdd Felt aLimbs bLimbs
  | .sub a b => do
      let aLimbs ← a.run Felt
      let bLimbs ← b.run Felt
      return feltSub Felt aLimbs bLimbs
  | .mul a b => do
      let aLimbs ← a.run Felt
      let bLimbs ← b.run Felt
      return feltMul Felt aLimbs bLimbs
  | .lwDiv a b => do
      let aLimbs ← a.run Felt
      let bLimbs ← b.run Felt
      CairoVM.lwDiv Felt aLimbs bLimbs

/-- The value of an expression in the field. -/
def value : FeltExpr → ZMod cairoPrime
  | .fromU64 integer => integer.toNat
  | .zero => 0
  | .one => 1
  | .add a b => a.value + b.value
  | .sub a b => a.value - b.value
  | .mul a b => a.value * b.value
  | .lwDiv a b => a.value / b.value

/-- No divisor in the expression is zero. -/
def NonzeroDivisors : FeltExpr → Prop
  | .fromU64 _ | .zero | .one => True
  | .add a b | .sub a b | .mul a b => a.NonzeroDivisors ∧ b.NonzeroDivisors
  | .lwDiv a b => a.NonzeroDivisors ∧ b.NonzeroDivisors ∧ b.value ≠ 0

/-- The calls of an expression leave the canonical limbs of its value. -/
theorem run_eq (Felt : Type) [Stark252Field Felt] [LawfulStark252Field Felt]
    {expr : FeltExpr} (divisors : expr.NonzeroDivisors) :
    expr.run Felt = some (canonicalLimbs expr.value) := by
  induction expr with
  | fromU64 integer => exact congrArg some (feltFrom_eq integer)
  | zero => exact congrArg some feltZero_eq
  | one => exact congrArg some feltOne_eq
  | add a b ihA ihB =>
      simp [run, value, ihA divisors.1, ihB divisors.2, feltAdd_eq]
  | sub a b ihA ihB =>
      simp [run, value, ihA divisors.1, ihB divisors.2, feltSub_eq]
  | mul a b ihA ihB =>
      simp [run, value, ihA divisors.1, ihB divisors.2, feltMul_eq]
  | lwDiv a b ihA ihB =>
      obtain ⟨divisorsA, divisorsB, nonzero⟩ := divisors
      have divisor : limbsElement (canonicalLimbs b.value) ≠ 0 := by
        rwa [limbsElement_canonicalLimbs]
      simp [run, value, ihA divisorsA, ihB divisorsB, lwDiv_eq _ divisor]

section Results

variable {Felt : Type} [Stark252Field Felt] [LawfulStark252Field Felt]
  {first second : FeltExpr} {firstLimbs secondLimbs : FeltT}

/-- The arrays of two results are equal exactly when the values are. -/
theorem limbs_eq_iff (firstDivisors : first.NonzeroDivisors)
    (secondDivisors : second.NonzeroDivisors)
    (firstRun : first.run Felt = some firstLimbs)
    (secondRun : second.run Felt = some secondLimbs) :
    firstLimbs = secondLimbs ↔ first.value = second.value := by
  rw [run_eq Felt firstDivisors] at firstRun
  rw [run_eq Felt secondDivisors] at secondRun
  obtain rfl := Option.some.inj firstRun
  obtain rfl := Option.some.inj secondRun
  exact canonicalLimbs_inj

end Results

end FeltExpr

/-- The C felt functions compute in the field: on all limb arrays they write the
canonical limbs of the sum, the difference, the product and the quotient, expressions
over them leave the canonical limbs of their values, and both `felt_equal` and the
overwrite guard of `memory_insert` compare two such results by their values.  The insert
must also pass the bounds guard: the segment index is below the counter, as it is after
every run that creates fewer than `2 ^ 32` segments, so that the counter has not wrapped. -/
theorem feltInterface_exact (Felt Table : Type) [Stark252Field Felt]
    [LawfulStark252Field Felt] [CCHashTable Table Relocatable MaybeRelocatable]
    [LawfulCCHashTable Table memoryConf] :
    cairoPrime = 2 ^ 251 + 17 * 2 ^ 192 + 1 ∧
    (∀ a b : FeltT,
      Represents (feltAdd Felt a b) (limbsValue a + limbsValue b) ∧
      Represents (feltSub Felt a b) (limbsValue a - limbsValue b) ∧
      Represents (feltMul Felt a b) (limbsValue a * limbsValue b) ∧
      (¬limbsValue b ≡ 0 [MOD cairoPrime] →
        ∃ result, lwDiv Felt a b = some result ∧ limbsValue result < cairoPrime ∧
          limbsValue result * limbsValue b ≡ limbsValue a [MOD cairoPrime])) ∧
    (∀ expr : FeltExpr, expr.NonzeroDivisors →
      ∃ result, expr.run Felt = some result ∧ result = limbsOf expr.value.val ∧
        limbsValue result = expr.value.val) ∧
    (∀ (first second : FeltExpr) (firstLimbs secondLimbs : FeltT),
      first.NonzeroDivisors → second.NonzeroDivisors →
      first.run Felt = some firstLimbs → second.run Felt = some secondLimbs →
      (feltEqual firstLimbs secondLimbs = true ↔ first.value = second.value) ∧
      (∀ (mem : Memory Table) (ptr : Relocatable),
        memoryGet mem ptr = .ok (.felt firstLimbs) →
        ((memoryInsert mem ptr (.felt secondLimbs)).1 = .ok () ↔
          ptr.segmentIndex < mem.numSegments ∧ first.value = second.value)) ∧
      (∀ (ops : List (MemoryOp Values)) (ptr : Relocatable), segmentsAdded ops < 2 ^ 32 →
        memoryGet (memoryRun Table ops) ptr = .ok (.felt firstLimbs) →
        ((memoryInsert (memoryRun Table ops) ptr (.felt secondLimbs)).1 = .ok () ↔
          first.value = second.value))) := by
  refine ⟨cairoPrime_eq, ?_, ?_, ?_⟩
  · intro a b
    exact ⟨represents_feltAdd Felt a b, represents_feltSub Felt a b,
      represents_feltMul Felt a b, fun nonzero => lwDiv_congruent Felt a nonzero⟩
  · intro expr divisors
    exact ⟨_, FeltExpr.run_eq Felt divisors, rfl, limbsValue_canonicalLimbs expr.value⟩
  · intro first second firstLimbs secondLimbs firstDivisors secondDivisors firstRun
      secondRun
    have sameIff : firstLimbs = secondLimbs ↔ first.value = second.value :=
      FeltExpr.limbs_eq_iff firstDivisors secondDivisors firstRun secondRun
    refine ⟨feltEqual_iff.trans sameIff, ?_, ?_⟩
    · intro mem ptr present
      rw [memoryInsert_present_ok_iff present, MaybeRelocatable.felt.injEq, sameIff]
      rfl
    · intro ops ptr noWrap present
      have created : Created (memoryRun Table ops).numSegments ptr :=
        ((within_memoryRun ops).created_iff noWrap).mpr
          ((within_memoryRun ops).bounded ptr _ (memoryGet_eq_ok_iff.mp present))
      rw [memoryInsert_present_ok_iff present, MaybeRelocatable.felt.injEq, sameIff]
      exact and_iff_right created

/-- `-1`, stored in a cell, and `(3 - 5) / 2`, inserted there. -/
theorem feltInterface_exact_minus_one :
    ∃ limbs,
      (FeltExpr.lwDiv (.sub (.fromU64 3) (.fromU64 5)) (.fromU64 2)).run
        (ZMod cairoPrime) = some limbs ∧
      (memoryInsert
        (memoryRun CellTable
          [.addSegment, .insert ⟨0, 0⟩ (.felt #v[0x800000000000011, 0, 0, 0])])
        ⟨0, 0⟩ (.felt limbs)).1 = .ok () := by
  obtain ⟨-, -, canonical, compare⟩ := feltInterface_exact (ZMod cairoPrime) CellTable
  have nonzero : (2 : ZMod cairoPrime) ≠ 0 := by decide +kernel
  have divisors :
      (FeltExpr.lwDiv (.sub (.fromU64 3) (.fromU64 5)) (.fromU64 2)).NonzeroDivisors :=
    ⟨⟨trivial, trivial⟩, trivial, nonzero⟩
  have sameValue : (0 - 1 : ZMod cairoPrime) = (3 - 5) / 2 := by
    rw [eq_div_iff nonzero]
    norm_num
  have minusOne : (FeltExpr.sub .zero .one).run (ZMod cairoPrime) =
      some #v[0x800000000000011, 0, 0, 0] := by
    decide +kernel
  obtain ⟨limbs, run, -, -⟩ := canonical _ divisors
  obtain ⟨-, -, insert⟩ :=
    compare (.sub .zero .one) _ _ limbs ⟨trivial, trivial⟩ divisors minusOne run
  exact ⟨limbs, run, (insert _ ⟨0, 0⟩ (by decide) rfl).mpr sameValue⟩

end CairoVM
