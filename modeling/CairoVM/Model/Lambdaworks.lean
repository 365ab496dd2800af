import CairoVM.Model.Relocatable

/-!
# The felt library

The C functions of the `lambdaworks` crate (`lib.rs`).  The field itself is a
dependency of that crate, so it is a parameter here; what the functions of the crate
do with it is modelled as they are written.
-/

namespace CairoVM

/-- The operations of `FieldElement<Stark252PrimeField>` that `lib.rs` uses. -/
class Stark252 (Felt : Type) where
  fromU64 : UInt64 → Felt
  representative : Felt → FeltT

/-- `CAIRO_PRIME`. -/
def cairoPrime : Nat := 0x800000000000011000000000000000000000000000000000000000000000001

/-- The four limbs of an integer, most significant first. -/
def limbsOf (value : Nat) : FeltT :=
  #v[UInt64.ofNat (value / 2 ^ 192), UInt64.ofNat (value / 2 ^ 128),
    UInt64.ofNat (value / 2 ^ 64), UInt64.ofNat value]

/-- The documented behaviour of the field operations. -/
class LawfulStark252 (Felt : Type) [Stark252 Felt] : Prop where
  representative_fromU64 : ∀ value : UInt64,
    Stark252.representative (Stark252.fromU64 value : Felt) = limbsOf value.toNat

/-- `felt_to_limbs`. -/
def feltToLimbs {Felt : Type} [Stark252 Felt] (felt : Felt) : FeltT :=
  Stark252.representative felt

/-- `from`. -/
def feltFrom (Felt : Type) [Stark252 Felt] (value : UInt64) : FeltT :=
  feltToLimbs (Stark252.fromU64 value : Felt)

/-- The other operations of `FieldElement<Stark252PrimeField>` that `lib.rs` uses.  A
division that panics has no result. -/
class Stark252Field (Felt : Type) extends Stark252 Felt where
  zero : Felt
  one : Felt
  fromUnsignedInteger : FeltT → Felt
  add : Felt → Felt → Felt
  sub : Felt → Felt → Felt
  mul : Felt → Felt → Felt
  div : Felt → Felt → Option Felt

section Arithmetic

variable (Felt : Type) [Stark252Field Felt]

/-- `limbs_to_felt`. -/
def limbsToFelt (limbs : FeltT) : Felt := Stark252Field.fromUnsignedInteger limbs

/-- `zero`. -/
def feltZero : FeltT := feltToLimbs (Stark252Field.zero : Felt)

/-- `one`. -/
def feltOne : FeltT := feltToLimbs (Stark252Field.one : Felt)

/-- `add`. -/
def feltAdd (a b : FeltT) : FeltT :=
  feltToLimbs (Stark252Field.add (limbsToFelt Felt a) (limbsToFelt Felt b))

/-- `sub`. -/
def feltSub (a b : FeltT) : FeltT :=
  feltToLimbs (Stark252Field.sub (limbsToFelt Felt a) (limbsToFelt Felt b))

/-- `mul`. -/
def feltMul (a b : FeltT) : FeltT :=
  feltToLimbs (Stark252Field.mul (limbsToFelt Felt a) (limbsToFelt Felt b))

/-- `lw_div`. -/
def lwDiv (a b : FeltT) : Option FeltT :=
  (Stark252Field.div (limbsToFelt Felt a) (limbsToFelt Felt b)).map feltToLimbs

end Arithmetic

/-- A field element as its canonical representative. -/
abbrev CanonicalFelt := Fin cairoPrime

instance : NeZero cairoPrime := ⟨by decide⟩

instance : Stark252 CanonicalFelt where
  fromU64 value := Fin.ofNat cairoPrime value.toNat
  representative felt := limbsOf felt.val

instance : LawfulStark252 CanonicalFelt where
  representative_fromU64 value := by
    have small : value.toNat < cairoPrime :=
      Nat.lt_trans (UInt64.toNat_lt value) (by decide)
    change limbsOf (value.toNat % cairoPrime) = limbsOf value.toNat
    rw [Nat.mod_eq_of_lt small]

end CairoVM
