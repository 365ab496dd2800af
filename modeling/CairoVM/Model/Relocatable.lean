import Mathlib.Algebra.Ring.Nat
/-!
# Relocatable values

Addresses and memory values, from `relocatable.h`, `relocatable.c` and the limb
arrays of `lambdaworks.h`.
-/

namespace CairoVM

/-- `felt_t`: four 64-bit limbs, most significant first. -/
abbrev FeltT := Vector UInt64 4

/-- `felt_equal`. -/
def feltEqual (a b : FeltT) : Bool :=
  a[0] == b[0] && a[1] == b[1] && a[2] == b[2] && a[3] == b[3]

theorem feltEqual_iff {a b : FeltT} : feltEqual a b = true ↔ a = b := by
  constructor
  · intro limbs
    simp only [feltEqual, Bool.and_eq_true, beq_iff_eq] at limbs
    obtain ⟨⟨⟨first, second⟩, third⟩, fourth⟩ := limbs
    apply Vector.ext
    intro index bound
    match index, bound with
    | 0, _ => exact first
    | 1, _ => exact second
    | 2, _ => exact third
    | 3, _ => exact fourth
  · rintro rfl
    simp [feltEqual]

/-- `relocatable`: the address of a memory cell.  Both fields are `unsigned int`. -/
structure Relocatable where
  segmentIndex : UInt32
  offset : UInt32
  deriving DecidableEq, Repr

/-- `maybe_relocatable`: the `is_felt` tag together with the member of the union
that it selects. -/
inductive MaybeRelocatable where
  | relocatable (value : Relocatable)
  | felt (limbs : FeltT)
  deriving DecidableEq, Repr

/-- `maybe_relocatable_equal`. -/
def maybeRelocatableEqual : MaybeRelocatable → MaybeRelocatable → Bool
  | .felt a, .felt b => feltEqual a b
  | .relocatable a, .relocatable b =>
      a.segmentIndex == b.segmentIndex && a.offset == b.offset
  | .felt _, .relocatable _ => false
  | .relocatable _, .felt _ => false

/-- The overwrite guard compares values exactly: tag and contents. -/
theorem maybeRelocatableEqual_iff {a b : MaybeRelocatable} :
    maybeRelocatableEqual a b = true ↔ a = b := by
  cases a with
  | felt a =>
      cases b with
      | felt b => simp [maybeRelocatableEqual, feltEqual_iff]
      | relocatable b => simp [maybeRelocatableEqual]
  | relocatable a =>
      cases b with
      | felt b => simp [maybeRelocatableEqual]
      | relocatable b =>
          cases a
          cases b
          simp [maybeRelocatableEqual]

end CairoVM
