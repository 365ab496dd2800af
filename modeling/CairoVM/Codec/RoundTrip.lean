import Mathlib.Tactic.IntervalCases
import CairoVM.Codec.LittleEndian

/-!
# Round trips of the little-endian codecs

The encoders write the bytes of their value.  The decoders keep byte 0 and byte 1 in
place only: at 32 bits every other byte is lost in the 16-bit accumulator, and at 64
bits byte 2 and byte 3 come back at the places of byte 3 and byte 6.  So a value makes
the round trip exactly when it fits into 16 bits.
-/

namespace CairoVM

open BitField ShiftLoop

theorem toNat_u32FromLeBytes (bytes : Vector UInt8 4) :
    (u32FromLeBytes bytes).toNat =
      (bytes.get 0).toNat + 2 ^ 8 * (bytes.get 1).toNat := by
  have low := UInt8.toNat_lt bytes[0]
  have high := UInt8.toNat_lt bytes[1]
  change ((fromLeBytes 16 4 bytes).setWidth 32).toNat =
    bytes[0].toNat + 2 ^ 8 * bytes[1].toNat
  rw [BitVec.toNat_setWidth, toNat_fromLeBytes (by decide)]
  simp [Fin.sum_univ_succ, shiftBelow_succ_eq]
  omega

theorem toNat_u64FromLeBytes (bytes : Vector UInt8 8) :
    (u64FromLeBytes bytes).toNat =
      (bytes.get 0).toNat + 2 ^ 8 * (bytes.get 1).toNat +
        2 ^ 24 * (bytes.get 2).toNat + 2 ^ 48 * (bytes.get 3).toNat := by
  have zero := UInt8.toNat_lt bytes[0]
  have one := UInt8.toNat_lt bytes[1]
  have two := UInt8.toNat_lt bytes[2]
  have three := UInt8.toNat_lt bytes[3]
  change (fromLeBytes 64 8 bytes).toNat =
    bytes[0].toNat + 2 ^ 8 * bytes[1].toNat + 2 ^ 24 * bytes[2].toNat +
      2 ^ 48 * bytes[3].toNat
  rw [toNat_fromLeBytes (by decide)]
  simp [Fin.sum_univ_succ, shiftBelow_succ_eq]
  omega

/-! ## Decoding and encoding again -/

/-- At 16 bits the bytes come back as they were. -/
theorem u16ToLeBytes_u16FromLeBytes (bytes bufferBytes : Vector UInt8 2) :
    u16ToLeBytes (u16FromLeBytes bytes) bufferBytes = bytes := by
  have zero := UInt8.toNat_lt bytes[0]
  have one := UInt8.toNat_lt bytes[1]
  rw [u16ToLeBytes, toLeBytes_eq_iff, toNat_u16FromLeBytes]
  intro i inside
  rw [field]
  interval_cases i
  all_goals omega

/-- At 32 bits the two upper bytes are lost. -/
theorem u32ToLeBytes_u32FromLeBytes (bytes bufferBytes : Vector UInt8 4) :
    u32ToLeBytes (u32FromLeBytes bytes) bufferBytes =
      #v[bytes.get 0, bytes.get 1, 0, 0] := by
  have zero := UInt8.toNat_lt (bytes.get 0)
  have one := UInt8.toNat_lt (bytes.get 1)
  rw [u32ToLeBytes, toLeBytes_eq_iff, toNat_u32FromLeBytes]
  intro i inside
  rw [field]
  interval_cases i
  · simp
  all_goals
    simp
    omega

/-- At 64 bits four bytes are lost, and two others move up. -/
theorem u64ToLeBytes_u64FromLeBytes (bytes bufferBytes : Vector UInt8 8) :
    u64ToLeBytes (u64FromLeBytes bytes) bufferBytes =
      #v[bytes.get 0, bytes.get 1, 0, bytes.get 2, 0, 0, bytes.get 3, 0] := by
  have zero := UInt8.toNat_lt (bytes.get 0)
  have one := UInt8.toNat_lt (bytes.get 1)
  have two := UInt8.toNat_lt (bytes.get 2)
  have three := UInt8.toNat_lt (bytes.get 3)
  rw [u64ToLeBytes, toLeBytes_eq_iff, toNat_u64FromLeBytes]
  intro i inside
  rw [field]
  interval_cases i
  all_goals
    simp
    omega

/-! ## The three widths -/

/-- The widths for which the repository has a little-endian codec. -/
inductive LeWidth where
  | w16
  | w32
  | w64
  deriving DecidableEq, Repr

namespace LeWidth

/-- The number of bytes of an encoding. -/
abbrev byteCount : LeWidth → Nat
  | w16 => 2
  | w32 => 4
  | w64 => 8

/-- The number of bits of a value. -/
abbrev bits (width : LeWidth) : Nat := 8 * width.byteCount

/-- The encoder of a width. -/
def toLeBytes : (width : LeWidth) → BitVec width.bits →
    Vector UInt8 width.byteCount → Vector UInt8 width.byteCount
  | w16, value, bufferBytes => u16ToLeBytes ⟨value⟩ bufferBytes
  | w32, value, bufferBytes => u32ToLeBytes ⟨value⟩ bufferBytes
  | w64, value, bufferBytes => u64ToLeBytes ⟨value⟩ bufferBytes

/-- The decoder of a width. -/
def fromLeBytes : (width : LeWidth) → Vector UInt8 width.byteCount → BitVec width.bits
  | w16, bytes => (u16FromLeBytes bytes).toBitVec
  | w32, bytes => (u32FromLeBytes bytes).toBitVec
  | w64, bytes => (u64FromLeBytes bytes).toBitVec

variable (width : LeWidth)

/-- Byte `i` of an encoding is bits `8 * i` to `8 * i + 7` of the value. -/
theorem toNat_getElem_toLeBytes (value : BitVec width.bits)
    (bufferBytes : Vector UInt8 width.byteCount) {i : Nat} (inside : i < width.byteCount) :
    (width.toLeBytes value bufferBytes)[i].toNat = field (8 * i) 8 value.toNat := by
  cases width with
  | w16 => exact CairoVM.toNat_getElem_toLeBytes value.toNat bufferBytes inside
  | w32 => exact CairoVM.toNat_getElem_toLeBytes value.toNat bufferBytes inside
  | w64 => exact CairoVM.toNat_getElem_toLeBytes value.toNat bufferBytes inside

/-- Values with the same encoding are equal. -/
theorem toLeBytes_inj {value other : BitVec width.bits}
    {bufferBytes : Vector UInt8 width.byteCount} :
    width.toLeBytes value bufferBytes = width.toLeBytes other bufferBytes ↔
      value = other := by
  constructor
  · intro same
    have agree : ∀ i < width.byteCount,
        field (8 * i) 8 value.toNat = field (8 * i) 8 other.toNat := by
      intro i inside
      rw [← toNat_getElem_toLeBytes width value bufferBytes inside, same,
        toNat_getElem_toLeBytes]
    apply BitVec.eq_of_toNat_eq
    exact eq_of_field_eq (by decide) value.isLt other.isLt agree
  · rintro rfl
    rfl

/-- Bytes survive decoding and encoding exactly when those from index 2 on are zero. -/
theorem toLeBytes_fromLeBytes_eq_iff (bytes bufferBytes : Vector UInt8 width.byteCount) :
    width.toLeBytes (width.fromLeBytes bytes) bufferBytes = bytes ↔
      ∀ i (inside : i < width.byteCount), 2 ≤ i → bytes[i] = 0 := by
  cases width with
  | w16 =>
      refine iff_of_true (u16ToLeBytes_u16FromLeBytes bytes bufferBytes) ?_
      intro i inside beyond
      exact absurd inside (Nat.not_lt.mpr beyond)
  | w32 =>
      change u32ToLeBytes (u32FromLeBytes bytes) bufferBytes = bytes ↔ _
      rw [u32ToLeBytes_u32FromLeBytes]
      constructor
      · intro same i inside beyond
        have two : (0 : UInt8) = bytes[2] := congrArg (·[2]) same
        have three : (0 : UInt8) = bytes[3] := congrArg (·[3]) same
        interval_cases i
        · exact two.symm
        · exact three.symm
      · intro zero
        apply Vector.ext
        intro i inside
        interval_cases i
        · rfl
        · rfl
        · exact (zero 2 (by decide) (by decide)).symm
        · exact (zero 3 (by decide) (by decide)).symm
  | w64 =>
      change u64ToLeBytes (u64FromLeBytes bytes) bufferBytes = bytes ↔ _
      rw [u64ToLeBytes_u64FromLeBytes]
      constructor
      · intro same
        have two : (0 : UInt8) = bytes[2] := congrArg (·[2]) same
        have three : bytes[2] = bytes[3] := congrArg (·[3]) same
        have four : (0 : UInt8) = bytes[4] := congrArg (·[4]) same
        have five : (0 : UInt8) = bytes[5] := congrArg (·[5]) same
        have six : bytes[3] = bytes[6] := congrArg (·[6]) same
        have seven : (0 : UInt8) = bytes[7] := congrArg (·[7]) same
        intro i inside beyond
        interval_cases i
        · exact two.symm
        · rw [← three, ← two]
        · exact four.symm
        · exact five.symm
        · rw [← six, ← three, ← two]
        · exact seven.symm
      · intro zero
        have two := zero 2 (by decide) (by decide)
        have three := zero 3 (by decide) (by decide)
        apply Vector.ext
        intro i inside
        interval_cases i
        · rfl
        · rfl
        · exact two.symm
        · exact two.trans three.symm
        · exact (zero 4 (by decide) (by decide)).symm
        · exact (zero 5 (by decide) (by decide)).symm
        · exact three.trans (zero 6 (by decide) (by decide)).symm
        · exact (zero 7 (by decide) (by decide)).symm

/-- A value survives encoding and decoding exactly when it fits into 16 bits. -/
theorem fromLeBytes_toLeBytes_eq_iff (value : BitVec width.bits)
    (bufferBytes : Vector UInt8 width.byteCount) :
    width.fromLeBytes (width.toLeBytes value bufferBytes) = value ↔
      value.toNat < 2 ^ 16 := by
  have byteZero : ∀ i (inside : i < width.byteCount),
      (width.toLeBytes value bufferBytes)[i] = 0 ↔ field (8 * i) 8 value.toNat = 0 := by
    intro i inside
    rw [← toNat_getElem_toLeBytes width value bufferBytes inside, ← UInt8.toNat_inj]
    rfl
  calc width.fromLeBytes (width.toLeBytes value bufferBytes) = value
      ↔ width.toLeBytes (width.fromLeBytes (width.toLeBytes value bufferBytes))
          bufferBytes = width.toLeBytes value bufferBytes := (toLeBytes_inj width).symm
    _ ↔ ∀ i (inside : i < width.byteCount), 2 ≤ i →
          (width.toLeBytes value bufferBytes)[i] = 0 :=
        toLeBytes_fromLeBytes_eq_iff width _ bufferBytes
    _ ↔ ∀ i < width.byteCount, 2 ≤ i → field (8 * i) 8 value.toNat = 0 := by
        simp only [byteZero]
    _ ↔ value.toNat < 2 ^ 16 :=
        (lt_two_pow_iff_field_eq_zero (by decide) value.isLt 2).symm

end LeWidth

/-- The little-endian codecs at every width: an encoding consists of the bytes of the
value, a value is decoded from its encoding exactly when it fits into 16 bits, and
bytes are encoded again from their decoding exactly when those from index 2 on are
zero. -/
theorem littleEndian_inverse_iff (width : LeWidth)
    (bufferBytes : Vector UInt8 width.byteCount) :
    (∀ (value : BitVec width.bits) (i : Nat) (inside : i < width.byteCount),
      (width.toLeBytes value bufferBytes)[i].toNat = field (8 * i) 8 value.toNat) ∧
    (∀ value : BitVec width.bits,
      width.fromLeBytes (width.toLeBytes value bufferBytes) = value ↔
        value.toNat < 2 ^ 16) ∧
    (∀ bytes : Vector UInt8 width.byteCount,
      width.toLeBytes (width.fromLeBytes bytes) bufferBytes = bytes ↔
        ∀ i (inside : i < width.byteCount), 2 ≤ i → bytes[i] = 0) :=
  ⟨fun value _ inside => width.toNat_getElem_toLeBytes value bufferBytes inside,
    fun value => width.fromLeBytes_toLeBytes_eq_iff value bufferBytes,
    fun bytes => width.toLeBytes_fromLeBytes_eq_iff bytes bufferBytes⟩

/-- The least value that does not survive at 32 bits. -/
theorem littleEndian_inverse_fails_at_65536 :
    ¬∀ (width : LeWidth) (bufferBytes : Vector UInt8 width.byteCount),
      (∀ value : BitVec width.bits,
        width.fromLeBytes (width.toLeBytes value bufferBytes) = value) ∧
      ∀ bytes : Vector UInt8 width.byteCount,
        width.toLeBytes (width.fromLeBytes bytes) bufferBytes = bytes := by
  intro inverse
  have decoded := (inverse .w32 #v[0, 0, 0, 0]).1 65536#32
  revert decoded
  decide

end CairoVM
