import Mathlib.Data.List.FinRange
import Mathlib.Logic.Function.Basic
import CairoVM.Library.Machine
import CairoVM.Model.Lambdaworks

/-!
# The felt library on words of memory

The C functions of `lib.rs` get raw pointers to their operands and to their result, and
these may be equal or overlap.  Here a pointer is the number of a word, and every function
reads its operands in full before it writes its result.
-/

namespace CairoVM

/-- The words of memory that the pointers range over. -/
abbrev Words := Nat → UInt64

/-- The four words that `limbs_to_felt` copies. -/
def limbsAt (words : Words) (limbs : Nat) : FeltT :=
  #v[words limbs, words (limbs + 1), words (limbs + 2), words (limbs + 3)]

/-- `maybe_relocatable_from_felt_limbs`. -/
def maybeRelocatableFromFeltLimbs (words : Words) (felt : Nat) : MaybeRelocatable :=
  .felt (limbsAt words felt)

/-- The loop of `felt_to_limbs`. -/
def storeLimbs (words : Words) (representative : FeltT) (limbs : Nat) : Words :=
  (List.finRange 4).foldl
    (fun words (i : Fin 4) => Function.update words (limbs + i) (representative.get i)) words

/-- A call of a felt function, with its pointers. -/
inductive FeltCall where
  | fromU64 (result : Nat) (value : UInt64)
  | zero (result : Nat)
  | one (result : Nat)
  | add (a b result : Nat)
  | sub (a b result : Nat)
  | mul (a b result : Nat)
  | lwDiv (a b result : Nat)
  deriving DecidableEq, Repr

namespace FeltCall

/-- The pointer to the result. -/
def result : FeltCall → Nat
  | fromU64 result _ | zero result | one result | add _ _ result | sub _ _ result
  | mul _ _ result | lwDiv _ _ result => result

/-- The pointers to the operands. -/
def operands : FeltCall → List Nat
  | fromU64 _ _ | zero _ | one _ => []
  | add a b _ | sub a b _ | mul a b _ | lwDiv a b _ => [a, b]

/-- The limbs that a call computes, unless it panics. -/
def limbs (Felt : Type) [Stark252Field Felt] (words : Words) : FeltCall → Option FeltT
  | fromU64 _ value => some (feltFrom Felt value)
  | zero _ => some (feltZero Felt)
  | one _ => some (feltOne Felt)
  | add a b _ => some (feltAdd Felt (limbsAt words a) (limbsAt words b))
  | sub a b _ => some (feltSub Felt (limbsAt words a) (limbsAt words b))
  | mul a b _ => some (feltMul Felt (limbsAt words a) (limbsAt words b))
  | lwDiv a b _ => CairoVM.lwDiv Felt (limbsAt words a) (limbsAt words b)

/-- The words that a call leaves, unless it panics. -/
def exec (Felt : Type) [Stark252Field Felt] (words : Words) (call : FeltCall) :
    Option Words := do
  let representative ← call.limbs Felt words
  return storeLimbs words representative call.result

/-- The words that a sequence of calls leaves, unless one of them panics. -/
def execAll (Felt : Type) [Stark252Field Felt] (words : Words) (calls : List FeltCall) :
    Option Words :=
  calls.foldlM (exec Felt) words

end FeltCall
end CairoVM
