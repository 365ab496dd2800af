import CairoVM.Model.Lambdaworks

/-!
# The integer of a limb array

Four limbs, most significant first, and the integers below `2 ^ 256` determine each
other.
-/

namespace CairoVM

/-- The integer that a limb array denotes. -/
def limbsValue (limbs : FeltT) : Nat :=
  (limbs.get 0).toNat * 2 ^ 192 + (limbs.get 1).toNat * 2 ^ 128 +
    (limbs.get 2).toNat * 2 ^ 64 + (limbs.get 3).toNat

theorem limbsValue_limbsOf {value : Nat} (small : value < 2 ^ 256) :
    limbsValue (limbsOf value) = value := by
  have first : ((limbsOf value).get 0).toNat = value / 2 ^ 192 % 2 ^ 64 :=
    UInt64.toNat_ofNat'
  have second : ((limbsOf value).get 1).toNat = value / 2 ^ 128 % 2 ^ 64 :=
    UInt64.toNat_ofNat'
  have third : ((limbsOf value).get 2).toNat = value / 2 ^ 64 % 2 ^ 64 :=
    UInt64.toNat_ofNat'
  have fourth : ((limbsOf value).get 3).toNat = value % 2 ^ 64 := UInt64.toNat_ofNat'
  rw [limbsValue, first, second, third, fourth]
  omega

/-- Integers of 256 bits with equal limbs are equal. -/
theorem limbsOf_injective {first second : Nat} (firstSmall : first < 2 ^ 256)
    (secondSmall : second < 2 ^ 256) (same : limbsOf first = limbsOf second) :
    first = second := by
  rw [← limbsValue_limbsOf firstSmall, same, limbsValue_limbsOf secondSmall]

end CairoVM
