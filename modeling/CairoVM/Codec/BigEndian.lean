import Mathlib.Tactic.IntervalCases
import CairoVM.Codec.LittleEndian

/-!
# The big-endian codec

`u64_to_be_bytes` runs its loop from the last index down, but every iteration writes
the same byte as in `u64_to_le_bytes`, so the order of the bytes is the little-endian
one.  `u64_from_be_bytes` shifts its accumulator by 48 bits and then by 56 bits in its
last two iterations, so only the last byte is left, at the top of the value.
-/

namespace CairoVM

open BitField

/-- The two encoders write the same bytes. -/
theorem u64ToBeBytes_eq (value : UInt64) (bufferBytes : Vector UInt8 8) :
    u64ToBeBytes value bufferBytes = u64ToLeBytes value bufferBytes := by
  apply Vector.ext
  intro i inside
  have backward : (u64ToBeBytes value bufferBytes)[i] =
      UInt8.ofNat (value.toNat >>> (8 * i) &&& 0xFF) :=
    (getElem_foldl_set _ _ _ inside).trans
      (if_pos (List.mem_reverse.mpr (List.mem_finRange _)))
  have forward : (u64ToLeBytes value bufferBytes)[i] =
      UInt8.ofNat (value.toNat >>> (8 * i) &&& 0xFF) :=
    (getElem_foldl_set _ _ _ inside).trans (if_pos (List.mem_finRange _))
  rw [backward, forward]

theorem toNat_getElem_u64ToBeBytes (value : UInt64) (bufferBytes : Vector UInt8 8)
    {i : Nat} (inside : i < 8) :
    (u64ToBeBytes value bufferBytes)[i].toNat = field (8 * i) 8 value.toNat := by
  rw [u64ToBeBytes_eq, u64ToLeBytes, toNat_getElem_toLeBytes]

/-- The decoder keeps the last byte only. -/
theorem toNat_u64FromBeBytes (bytes : Vector UInt8 8) :
    (u64FromBeBytes bytes).toNat = 2 ^ 56 * bytes[7].toNat := by
  have last := UInt8.toNat_lt bytes[7]
  obtain ⟨earlier, steps⟩ : ∃ earlier : BitVec 64, (u64FromBeBytes bytes).toBitVec =
      (earlier <<< 48 ||| BitVec.ofNat 64 bytes[7].toNat) <<< 56 := ⟨_, rfl⟩
  have lost : earlier <<< 48 <<< 56 = 0#64 := by
    rw [← BitVec.shiftLeft_add, BitVec.shiftLeft_eq_zero (by decide)]
  change (u64FromBeBytes bytes).toBitVec.toNat = _
  rw [steps, BitVec.shiftLeft_or_distrib, lost, BitVec.zero_or, BitVec.toNat_shiftLeft,
    BitVec.toNat_ofNat, Nat.shiftLeft_eq]
  omega

/-! ## Where the codec is a big-endian one -/

/-- The encoding has the bytes of the value from the most significant one on, which is
the reverse of its little-endian encoding. -/
structure WritesBigEndian (value : UInt64) (bufferBytes : Vector UInt8 8) : Prop where
  bytes : ∀ i (inside : i < 8), (u64ToBeBytes value bufferBytes)[i].toNat =
    field (8 * (7 - i)) 8 value.toNat
  reversed : u64ToBeBytes value bufferBytes = (u64ToLeBytes value bufferBytes).reverse

/-- The bytes of the value read the same in both directions. -/
def ByteSymmetric (value : UInt64) : Prop :=
  ∀ i < 8, field (8 * i) 8 value.toNat = field (8 * (7 - i)) 8 value.toNat

theorem writesBigEndian_iff (value : UInt64) (bufferBytes : Vector UInt8 8) :
    WritesBigEndian value bufferBytes ↔ ByteSymmetric value := by
  constructor
  · intro writes i inside
    rw [← writes.bytes i inside, toNat_getElem_u64ToBeBytes]
  · intro symmetric
    refine ⟨fun i inside => ?_, ?_⟩
    · rw [toNat_getElem_u64ToBeBytes, symmetric i inside]
    · apply Vector.ext
      intro i inside
      rw [← UInt8.toNat_inj, Vector.getElem_reverse, toNat_getElem_u64ToBeBytes,
        u64ToLeBytes, toNat_getElem_toLeBytes, symmetric i inside]

/-- A value is decoded from its encoding exactly when only its top byte is used. -/
theorem u64FromBeBytes_u64ToBeBytes_iff (value : UInt64) (bufferBytes : Vector UInt8 8) :
    u64FromBeBytes (u64ToBeBytes value bufferBytes) = value ↔ 2 ^ 56 ∣ value.toNat := by
  have bound := value.toNat_lt
  rw [← UInt64.toNat_inj, toNat_u64FromBeBytes,
    toNat_getElem_u64ToBeBytes value bufferBytes (by decide), field]
  omega

/-- Bytes are encoded again from their decoding exactly when all but the last are
zero. -/
theorem u64ToBeBytes_u64FromBeBytes_iff (bytes bufferBytes : Vector UInt8 8) :
    u64ToBeBytes (u64FromBeBytes bytes) bufferBytes = bytes ↔
      ∀ i (inside : i < 7), bytes[i] = 0 := by
  have last := UInt8.toNat_lt bytes[7]
  have top : field (8 * 7) 8 (2 ^ 56 * bytes[7].toNat) = bytes[7].toNat := by
    rw [field]
    omega
  have below : ∀ i < 7, field (8 * i) 8 (2 ^ 56 * bytes[7].toNat) = 0 := by
    intro i inside
    rw [field]
    interval_cases i <;> omega
  rw [u64ToBeBytes_eq, u64ToLeBytes, toLeBytes_eq_iff, toNat_u64FromBeBytes]
  constructor
  · intro agree i inside
    rw [← UInt8.toNat_inj, ← agree i (Nat.lt_succ_of_lt inside), below i inside]
    rfl
  · intro zero i inside
    rcases Nat.lt_succ_iff_lt_or_eq.mp inside with inner | rfl
    · rw [below i inner, zero i inner]
      rfl
    · exact top

/-- The codec is a big-endian one on a value, and inverse to itself on the value and on
some bytes. -/
structure BigEndianCodec (value : UInt64) (bytes bufferBytes : Vector UInt8 8) :
    Prop where
  encodes : WritesBigEndian value bufferBytes
  decodes : u64FromBeBytes (u64ToBeBytes value bufferBytes) = value
  recodes : u64ToBeBytes (u64FromBeBytes bytes) bufferBytes = bytes

/-- When the big-endian codec does what its name says, part by part and as a whole. -/
theorem bigEndianCodec_iff (value : UInt64) (bytes bufferBytes : Vector UInt8 8) :
    (WritesBigEndian value bufferBytes ↔ ByteSymmetric value) ∧
    (u64FromBeBytes (u64ToBeBytes value bufferBytes) = value ↔
      2 ^ 56 ∣ value.toNat) ∧
    (u64ToBeBytes (u64FromBeBytes bytes) bufferBytes = bytes ↔
      ∀ i (inside : i < 7), bytes[i] = 0) ∧
    (BigEndianCodec value bytes bufferBytes ↔
      value = 0 ∧ ∀ i (inside : i < 7), bytes[i] = 0) := by
  have encodes := writesBigEndian_iff value bufferBytes
  have decodes := u64FromBeBytes_u64ToBeBytes_iff value bufferBytes
  have recodes := u64ToBeBytes_u64FromBeBytes_iff bytes bufferBytes
  refine ⟨encodes, decodes, recodes, ?_, ?_⟩
  · intro codec
    have symmetric := encodes.mp codec.encodes 7 (by decide)
    have topOnly := decodes.mp codec.decodes
    have bound := value.toNat_lt
    refine ⟨?_, recodes.mp codec.recodes⟩
    -- The bottom byte is zero, and the top byte equals it.
    rw [field, field] at symmetric
    rw [← UInt64.toNat_inj, UInt64.toNat_zero]
    omega
  · rintro ⟨rfl, zero⟩
    refine ⟨encodes.mpr ?_, decodes.mpr (by simp), recodes.mpr zero⟩
    intro i inside
    simp [field]

/-- The value 1 is written with its lowest byte first, and read back as 0. -/
theorem bigEndianCodec_fails_at_one :
    ¬∀ (value : UInt64) (bytes bufferBytes : Vector UInt8 8),
      BigEndianCodec value bytes bufferBytes := by
  intro codec
  have first := (codec 1 #v[0, 0, 0, 0, 0, 0, 0, 0] #v[0, 0, 0, 0, 0, 0, 0, 0]).encodes.bytes
    0 (by decide)
  revert first
  decide

end CairoVM
