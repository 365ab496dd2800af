import Mathlib.NumberTheory.LucasPrimality
import Mathlib.Tactic.NormNum.Prime
import Mathlib.Tactic.ReduceModChar
import CairoVM.Model.Lambdaworks

/-!
# The field of the felts

`CAIRO_PRIME` is a prime number, so the integers modulo it are a field.  The proof is
Lucas's test with the witness 3 and the factorization of `CAIRO_PRIME - 1`.
-/

namespace CairoVM

theorem cairoPrime_eq : cairoPrime = 2 ^ 251 + 17 * 2 ^ 192 + 1 := by decide

theorem cairoPrime_sub_one :
    cairoPrime - 1 = 2 ^ 192 * (5 * (7 * (98714381 * 166848103))) := by decide

/-- The prime factors of `CAIRO_PRIME - 1`. -/
theorem factor_of_dvd_cairoPrime_sub_one {factor : Nat} (prime : factor.Prime)
    (divides : factor ∣ cairoPrime - 1) :
    factor = 2 ∨ factor = 5 ∨ factor = 7 ∨ factor = 98714381 ∨ factor = 166848103 := by
  have five : Nat.Prime 5 := by norm_num
  have seven : Nat.Prime 7 := by norm_num
  have fourth : Nat.Prime 98714381 := by norm_num
  have fifth : Nat.Prime 166848103 := by norm_num
  rw [cairoPrime_sub_one, prime.dvd_mul, prime.dvd_mul, prime.dvd_mul, prime.dvd_mul,
    Nat.prime_dvd_prime_iff_eq prime five, Nat.prime_dvd_prime_iff_eq prime seven,
    Nat.prime_dvd_prime_iff_eq prime fourth, Nat.prime_dvd_prime_iff_eq prime fifth]
    at divides
  refine divides.imp_left fun powerOfTwo => ?_
  exact (Nat.prime_dvd_prime_iff_eq prime Nat.prime_two).mp
    (prime.dvd_of_dvd_pow powerOfTwo)

theorem prime_cairoPrime : cairoPrime.Prime := by
  refine lucas_primality cairoPrime 3 ?_ ?_
  · rw [cairoPrime_sub_one]
    unfold cairoPrime
    norm_num
    reduce_mod_char
  · intro factor prime divides
    rw [cairoPrime_sub_one]
    unfold cairoPrime
    rcases factor_of_dvd_cairoPrime_sub_one prime divides with
      rfl | rfl | rfl | rfl | rfl
    all_goals
      norm_num
      reduce_mod_char
      decide

instance : Fact cairoPrime.Prime := ⟨prime_cairoPrime⟩

end CairoVM
