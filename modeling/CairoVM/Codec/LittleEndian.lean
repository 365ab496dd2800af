import CairoVM.Library.BitField
import CairoVM.Library.ShiftLoop
import CairoVM.Model.Utils

/-!
# What the byte codecs compute

Byte `i` of an encoding is the field of eight bits at `8 * i`.  A decoder shifts its
accumulator in every iteration by eight times the index, so it puts byte `i` elsewhere
unless `i` is 0 or 1.
-/

namespace CairoVM

open BitField ShiftLoop

/-- A loop that sets some entries of a buffer. -/
theorem getElem_foldl_set {Entry : Type*} {count : Nat} (value : Fin count → Entry)
    (indices : List (Fin count)) (buffer : Vector Entry count) {query : Nat}
    (inside : query < count) :
    (indices.foldl (fun buffer i => buffer.set i (value i)) buffer)[query] =
      if ⟨query, inside⟩ ∈ indices then value ⟨query, inside⟩ else buffer[query] := by
  induction indices generalizing buffer with
  | nil => simp
  | cons index indices ih =>
      rw [List.foldl_cons, ih]
      by_cases later : ⟨query, inside⟩ ∈ indices
      · simp [later]
      · by_cases now : index.val = query
        · have same : index = ⟨query, inside⟩ := Fin.ext now
          subst same
          simp [later]
        · have apart : ⟨query, inside⟩ ≠ index := fun same => now (by simp [← same])
          simp [later, now, apart]

/-- The bytes of an encoding are the eight-bit fields of the value. -/
theorem toNat_getElem_toLeBytes {count : Nat} (value : Nat)
    (bufferBytes : Vector UInt8 count) {i : Nat} (inside : i < count) :
    (toLeBytes count value bufferBytes)[i].toNat = field (8 * i) 8 value := by
  have stored : (toLeBytes count value bufferBytes)[i] =
      UInt8.ofNat (value >>> (8 * i) &&& 0xFF) :=
    (getElem_foldl_set _ _ _ inside).trans (if_pos (List.mem_finRange _))
  have mask : (0xFF : Nat) = 2 ^ 8 - 1 := rfl
  rw [stored, UInt8.toNat_ofNat', field, Nat.shiftRight_eq_div_pow, mask,
    Nat.and_two_pow_sub_one_eq_mod, Nat.mod_mod]

/-- An encoder writes given bytes exactly when they are the fields of the value. -/
theorem toLeBytes_eq_iff {count value : Nat} {bufferBytes bytes : Vector UInt8 count} :
    toLeBytes count value bufferBytes = bytes ↔
      ∀ i (inside : i < count), field (8 * i) 8 value = bytes[i].toNat := by
  constructor
  · rintro rfl i inside
    exact (toNat_getElem_toLeBytes value bufferBytes inside).symm
  · intro agree
    apply Vector.ext
    intro i inside
    rw [← UInt8.toNat_inj, toNat_getElem_toLeBytes, agree i inside]

/-- A decoder places byte `i` at bit `8 * (0 + 1 + ... + i)`. -/
theorem toNat_fromLeBytes {bits count : Nat} (wide : 8 ≤ bits)
    (bytes : Vector UInt8 count) :
    (fromLeBytes bits count bytes).toNat =
      (∑ i : Fin count, bytes[i].toNat * 2 ^ shiftBelow (i.val + 1)) % 2 ^ bits :=
  toNat_loop_zero wide (fun i : Fin count => bytes[i].toNat)
    fun i => UInt8.toNat_lt bytes[i]

theorem toNat_u16FromLeBytes (bytes : Vector UInt8 2) :
    (u16FromLeBytes bytes).toNat = bytes[0].toNat + 2 ^ 8 * bytes[1].toNat := by
  have high := UInt8.toNat_lt bytes[1]
  have low := UInt8.toNat_lt bytes[0]
  change (fromLeBytes 16 2 bytes).toNat = _
  rw [toNat_fromLeBytes (by decide)]
  simp [Fin.sum_univ_succ, shiftBelow_succ_eq]
  omega

end CairoVM
