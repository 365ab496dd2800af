import Mathlib.Algebra.Ring.Nat
import Mathlib.Data.List.FinRange

/-!
# Byte codecs

The loops of `utils.c`.  The functions of one direction differ in the number of bytes
and in the width of their integers only, so each is an instance of one loop.
-/

namespace CairoVM

/-- The loop of the `_to_le_bytes` functions. -/
def toLeBytes (count value : Nat) (bufferBytes : Vector UInt8 count) :
    Vector UInt8 count :=
  (List.finRange count).foldl
    (fun buffer (i : Fin count) =>
      buffer.set i (UInt8.ofNat (value >>> (8 * i.val) &&& 0xFF)))
    bufferBytes

/-- The loop of the `_from_le_bytes` functions, with an accumulator of `bits`
bits. -/
def fromLeBytes (bits count : Nat) (bytes : Vector UInt8 count) : BitVec bits :=
  (List.finRange count).reverse.foldl
    (fun value (i : Fin count) =>
      (value ||| BitVec.ofNat bits bytes[i].toNat) <<< (8 * i.val)) 0

/-! ## u64 bits -/

/-- `u64_to_le_bytes`. -/
def u64ToLeBytes (value : UInt64) (bufferBytes : Vector UInt8 8) : Vector UInt8 8 :=
  toLeBytes 8 value.toNat bufferBytes

/-- `u64_to_be_bytes`. -/
def u64ToBeBytes (value : UInt64) (bufferBytes : Vector UInt8 8) : Vector UInt8 8 :=
  (List.finRange 8).reverse.foldl
    (fun buffer (i : Fin 8) =>
      buffer.set i (UInt8.ofNat (value.toNat >>> (8 * i.val) &&& 0xFF)))
    bufferBytes

/-- `u64_from_le_bytes`. -/
def u64FromLeBytes (bytes : Vector UInt8 8) : UInt64 :=
  ⟨fromLeBytes 64 8 bytes⟩

/-- `u64_from_be_bytes`. -/
def u64FromBeBytes (bytes : Vector UInt8 8) : UInt64 :=
  ⟨(List.finRange 8).foldl
    (fun value (i : Fin 8) =>
      (value ||| BitVec.ofNat 64 bytes[i].toNat) <<< (8 * i.val)) 0⟩

/-! ## u16 bits -/

/-- `u16_to_le_bytes`. -/
def u16ToLeBytes (value : UInt16) (bufferBytes : Vector UInt8 2) : Vector UInt8 2 :=
  toLeBytes 2 value.toNat bufferBytes

/-- `u16_from_le_bytes`. -/
def u16FromLeBytes (bytes : Vector UInt8 2) : UInt16 :=
  ⟨fromLeBytes 16 2 bytes⟩

/-! ## u32 bits -/

/-- `u32_to_le_bytes`. -/
def u32ToLeBytes (value : UInt32) (bufferBytes : Vector UInt8 4) : Vector UInt8 4 :=
  toLeBytes 4 value.toNat bufferBytes

/-- `u32_from_le_bytes`.  Its accumulator is a `uint16_t`, to which every shifted value
is truncated. -/
def u32FromLeBytes (bytes : Vector UInt8 4) : UInt32 :=
  ⟨(fromLeBytes 16 4 bytes).setWidth 32⟩

end CairoVM
