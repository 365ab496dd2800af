import CairoVM.Felt.Limbs
import CairoVM.Felt.Prime
import Mathlib.Algebra.Field.ZMod

/-!
# Arithmetic on limb arrays

The C functions on felts convert their operands to field elements, apply the field
operation, and write the limbs of the representative of the result.  So they compute in
the field of `CAIRO_PRIME` elements, on the elements that the arrays denote.
-/

namespace CairoVM

/-- The documented behaviour of the field operations: exact arithmetic in the field of
`CAIRO_PRIME` elements. -/
class LawfulStark252Field (Felt : Type) [Stark252Field Felt] where
  value : Felt → ZMod cairoPrime
  representative_eq : ∀ felt : Felt,
    Stark252.representative felt = limbsOf (value felt).val
  value_fromU64 : ∀ integer : UInt64,
    value (Stark252.fromU64 integer) = (integer.toNat : ZMod cairoPrime)
  value_fromUnsignedInteger : ∀ limbs : FeltT,
    value (Stark252Field.fromUnsignedInteger limbs) =
      (limbsValue limbs : ZMod cairoPrime)
  value_zero : value Stark252Field.zero = 0
  value_one : value Stark252Field.one = 1
  value_add : ∀ a b : Felt, value (Stark252Field.add a b) = value a + value b
  value_sub : ∀ a b : Felt, value (Stark252Field.sub a b) = value a - value b
  value_mul : ∀ a b : Felt, value (Stark252Field.mul a b) = value a * value b
  value_div : ∀ a b : Felt, value b ≠ 0 →
    ∃ quotient, Stark252Field.div a b = some quotient ∧
      value quotient = value a / value b

/-! ## Canonical limbs -/

/-- The field element that a limb array denotes; its integer may exceed
`CAIRO_PRIME`. -/
def limbsElement (limbs : FeltT) : ZMod cairoPrime := (limbsValue limbs : ZMod cairoPrime)

/-- The canonical limbs of a field element. -/
def canonicalLimbs (element : ZMod cairoPrime) : FeltT := limbsOf element.val

theorem limbsValue_canonicalLimbs (element : ZMod cairoPrime) :
    limbsValue (canonicalLimbs element) = element.val := by
  have bounded : element.val < cairoPrime := element.val_lt
  have fits : cairoPrime < 2 ^ 256 := by decide
  exact limbsValue_limbsOf (bounded.trans fits)

theorem limbsValue_canonicalLimbs_lt (element : ZMod cairoPrime) :
    limbsValue (canonicalLimbs element) < cairoPrime := by
  rw [limbsValue_canonicalLimbs]
  exact element.val_lt

/-- Writing a felt as limbs and reading it back gives the felt. -/
@[simp] theorem limbsElement_canonicalLimbs (element : ZMod cairoPrime) :
    limbsElement (canonicalLimbs element) = element := by
  rw [limbsElement, limbsValue_canonicalLimbs, ZMod.natCast_zmod_val]

theorem canonicalLimbs_inj {first second : ZMod cairoPrime} :
    canonicalLimbs first = canonicalLimbs second ↔ first = second := by
  constructor
  · intro same
    rw [← limbsElement_canonicalLimbs first, same, limbsElement_canonicalLimbs]
  · exact congrArg canonicalLimbs

/-- The limb array holds the canonical representative of an integer. -/
def Represents (limbs : FeltT) (integer : Int) : Prop :=
  limbsValue limbs < cairoPrime ∧ (limbsValue limbs : Int) ≡ integer [ZMOD cairoPrime]

theorem represents_canonicalLimbs {element : ZMod cairoPrime} {integer : Int}
    (denotes : element = (integer : ZMod cairoPrime)) :
    Represents (canonicalLimbs element) integer := by
  refine ⟨limbsValue_canonicalLimbs_lt element, ?_⟩
  rw [← ZMod.intCast_eq_intCast_iff, ← denotes, Int.cast_natCast]
  exact limbsElement_canonicalLimbs element

theorem limbsElement_eq_zero_iff {limbs : FeltT} :
    limbsElement limbs = 0 ↔ limbsValue limbs ≡ 0 [MOD cairoPrime] := by
  rw [limbsElement, ← ZMod.natCast_eq_natCast_iff, Nat.cast_zero]

/-! ## The C functions -/

section Operations

variable {Felt : Type} [Stark252Field Felt] [LawfulStark252Field Felt]

open LawfulStark252Field (value)

theorem feltToLimbs_eq (felt : Felt) : feltToLimbs felt = canonicalLimbs (value felt) :=
  LawfulStark252Field.representative_eq felt

theorem value_limbsToFelt (limbs : FeltT) :
    value (limbsToFelt Felt limbs) = limbsElement limbs :=
  LawfulStark252Field.value_fromUnsignedInteger limbs

theorem feltFrom_eq (integer : UInt64) :
    feltFrom Felt integer = canonicalLimbs (integer.toNat : ZMod cairoPrime) := by
  rw [feltFrom, feltToLimbs_eq, LawfulStark252Field.value_fromU64]

/-- Exact arithmetic contains the law that the parser relies on. -/
instance : LawfulStark252 Felt where
  representative_fromU64 integer := by
    have small : integer.toNat < cairoPrime :=
      Nat.lt_trans (UInt64.toNat_lt integer) (by decide)
    rw [LawfulStark252Field.representative_eq, LawfulStark252Field.value_fromU64,
      ZMod.val_cast_of_lt small]

theorem feltZero_eq : feltZero Felt = canonicalLimbs 0 := by
  rw [feltZero, feltToLimbs_eq, LawfulStark252Field.value_zero]

theorem feltOne_eq : feltOne Felt = canonicalLimbs 1 := by
  rw [feltOne, feltToLimbs_eq, LawfulStark252Field.value_one]

theorem feltAdd_eq (a b : FeltT) :
    feltAdd Felt a b = canonicalLimbs (limbsElement a + limbsElement b) := by
  rw [feltAdd, feltToLimbs_eq, LawfulStark252Field.value_add, value_limbsToFelt,
    value_limbsToFelt]

theorem feltSub_eq (a b : FeltT) :
    feltSub Felt a b = canonicalLimbs (limbsElement a - limbsElement b) := by
  rw [feltSub, feltToLimbs_eq, LawfulStark252Field.value_sub, value_limbsToFelt,
    value_limbsToFelt]

theorem feltMul_eq (a b : FeltT) :
    feltMul Felt a b = canonicalLimbs (limbsElement a * limbsElement b) := by
  rw [feltMul, feltToLimbs_eq, LawfulStark252Field.value_mul, value_limbsToFelt,
    value_limbsToFelt]

theorem lwDiv_eq (a : FeltT) {b : FeltT} (nonzero : limbsElement b ≠ 0) :
    lwDiv Felt a b = some (canonicalLimbs (limbsElement a / limbsElement b)) := by
  have divisor : value (limbsToFelt Felt b) ≠ 0 := by rwa [value_limbsToFelt]
  obtain ⟨quotient, defined, quotientValue⟩ :=
    LawfulStark252Field.value_div (limbsToFelt Felt a) (limbsToFelt Felt b) divisor
  rw [lwDiv, defined, Option.map_some, feltToLimbs_eq, quotientValue, value_limbsToFelt,
    value_limbsToFelt]

end Operations

/-! ## Congruences -/

section Congruences

variable (Felt : Type) [Stark252Field Felt] [LawfulStark252Field Felt]

theorem represents_feltAdd (a b : FeltT) :
    Represents (feltAdd Felt a b) (limbsValue a + limbsValue b) := by
  rw [feltAdd_eq]
  exact represents_canonicalLimbs (by simp [limbsElement])

theorem represents_feltSub (a b : FeltT) :
    Represents (feltSub Felt a b) (limbsValue a - limbsValue b) := by
  rw [feltSub_eq]
  exact represents_canonicalLimbs (by simp [limbsElement])

theorem represents_feltMul (a b : FeltT) :
    Represents (feltMul Felt a b) (limbsValue a * limbsValue b) := by
  rw [feltMul_eq]
  exact represents_canonicalLimbs (by simp [limbsElement])

/-- The quotient is the canonical solution of `x * b = a`. -/
theorem lwDiv_congruent (a : FeltT) {b : FeltT}
    (nonzero : ¬limbsValue b ≡ 0 [MOD cairoPrime]) :
    ∃ result, lwDiv Felt a b = some result ∧ limbsValue result < cairoPrime ∧
      limbsValue result * limbsValue b ≡ limbsValue a [MOD cairoPrime] := by
  have divisor : limbsElement b ≠ 0 := mt limbsElement_eq_zero_iff.mp nonzero
  refine ⟨_, lwDiv_eq a divisor, limbsValue_canonicalLimbs_lt _, ?_⟩
  rw [← ZMod.natCast_eq_natCast_iff, Nat.cast_mul]
  change limbsElement (canonicalLimbs _) * limbsElement b = limbsElement a
  rw [limbsElement_canonicalLimbs, div_mul_cancel₀ _ divisor]

end Congruences

/-! ## The field itself as a model -/

instance : Stark252Field (ZMod cairoPrime) where
  fromU64 integer := integer.toNat
  representative element := limbsOf element.val
  zero := 0
  one := 1
  fromUnsignedInteger limbs := limbsValue limbs
  add a b := a + b
  sub a b := a - b
  mul a b := a * b
  div a b := if b = 0 then none else some (a * b⁻¹)

instance : LawfulStark252Field (ZMod cairoPrime) where
  value := id
  representative_eq _ := rfl
  value_fromU64 _ := rfl
  value_fromUnsignedInteger _ := rfl
  value_zero := rfl
  value_one := rfl
  value_add _ _ := rfl
  value_sub _ _ := rfl
  value_mul _ _ := rfl
  value_div a b nonzero := ⟨a * b⁻¹, if_neg nonzero, (div_eq_mul_inv a b).symm⟩

end CairoVM
