import CairoVM.Model.Instruction
import CairoVM.Model.Utils

/-!
# The instruction decoder

The functions of `decoder.c`.  Each `switch` of `decode_instruction` is a function of
its own.
-/

namespace CairoVM

/-- `overflow_sub`. -/
def overflowSub (offset16bEncoded complementConst : UInt16) : Int :=
  let offset : Int := offset16bEncoded.toNat
  let complement : Int := complementConst.toNat
  offset - complement

/-- `decode_offset`.  The buffer is not initialized; every byte of it is written. -/
def decodeOffset (offset : UInt64) : Int :=
  let bufferBytes := Vector.replicate 8 0
  let vectorizedOffset := u64ToLeBytes offset bufferBytes
  let offsetBytes := #v[vectorizedOffset[0], vectorizedOffset[1]]
  let offset16bEncoded := u16FromLeBytes offsetBytes
  let complementConst := 0x8000
  overflowSub offset16bEncoded complementConst

/-- The choice of `dst_register` and of `op0_register`. -/
def registerOf (regNum : UInt64) : Register :=
  if regNum = 1 then .regFp else .regAp

/-- A `switch` over the value of a flag group, whose default case returns an
error. -/
def flagSwitch {Flag : Type} (branches : List (Nat × Flag))
    (error : VirtualMachineError) (num : UInt64) : Except VirtualMachineError Flag :=
  match branches.lookup num.toNat with
  | some flag => .ok flag
  | none => .error error

/-- The switch for `op1_addr`. -/
def op1AddrOf (op1SrcNum : UInt64) : Except VirtualMachineError Op1Addr :=
  flagSwitch [(0, .op0), (1, .imm), (2, .opFp), (4, .opAp)] .invalidOp1Reg op1SrcNum

/-- The switch for `pc_update`. -/
def pcUpdateOf (pcUpdateNum : UInt64) : Except VirtualMachineError PcUpdate :=
  flagSwitch [(0, .pcRegular), (1, .jump), (2, .jumpRel), (4, .jnz)] .invalidPcUpdate
    pcUpdateNum

/-- The switch for `res`. -/
def resOf (resLogicNum : UInt64) (pcUpdate : PcUpdate) :
    Except VirtualMachineError Res :=
  flagSwitch
    [(0, if pcUpdate = .jnz then .unconstrained else .op1), (1, .resAdd), (2, .mul)]
    .invalidRes resLogicNum

/-- The switch for `opcode`. -/
def opcodeOf (opcodeNum : UInt64) : Except VirtualMachineError Opcode :=
  flagSwitch [(0, .nop), (1, .call), (2, .ret), (4, .assertEq)] .invalidOpcode opcodeNum

/-- The switch for `ap_update`. -/
def apUpdateOf (apUpdateNum : UInt64) (opcode : Opcode) :
    Except VirtualMachineError ApUpdate :=
  flagSwitch [(0, if opcode = .call then .add2 else .apRegular), (1, .add), (2, .add1)]
    .invalidApUpdate apUpdateNum

/-- The switch for `fp_update`. -/
def fpUpdateOf (opcode : Opcode) : FpUpdate :=
  match opcode with
  | .call => .apPlus2
  | .ret => .dst
  | _ => .fpRegular

/-- `decode_instruction`. -/
def decodeInstruction (encodedInstr : UInt64) : ResultInstruction :=
  let highBit : UInt64 := (1 : UInt64) <<< 63
  let dstRegMask : UInt64 := 0x0001
  let dstRegOff : UInt64 := 0
  let op0RegMask : UInt64 := 0x0002
  let op0RegOff : UInt64 := 1
  let op1SrcMask : UInt64 := 0x001C
  let op1SrcOff : UInt64 := 2
  let resLogicMask : UInt64 := 0x0060
  let resLogicOff : UInt64 := 5
  let pcUpdateMask : UInt64 := 0x0380
  let pcUpdateOff : UInt64 := 7
  let apUpdateMask : UInt64 := 0x0C00
  let apUpdateOff : UInt64 := 10
  let opcodeMask : UInt64 := 0x7000
  let opcodeOff : UInt64 := 12
  -- Flags start on the 48th bit.
  let flagsOffset : UInt64 := 48
  let off0Off : UInt64 := 0
  let off1Off : UInt64 := 16
  let off2Off : UInt64 := 32
  let offxMask : UInt64 := 0xFFFF
  if encodedInstr &&& highBit ≠ 0 then
    .error .instructionNonZeroHighBit
  else do
    let off0 := decodeOffset (encodedInstr >>> off0Off &&& offxMask)
    let off1 := decodeOffset (encodedInstr >>> off1Off &&& offxMask)
    let off2 := decodeOffset (encodedInstr >>> off2Off &&& offxMask)
    let flags := encodedInstr >>> flagsOffset
    let dstRegNum := (flags &&& dstRegMask) >>> dstRegOff
    let op0RegNum := (flags &&& op0RegMask) >>> op0RegOff
    let op1SrcNum := (flags &&& op1SrcMask) >>> op1SrcOff
    let resLogicNum := (flags &&& resLogicMask) >>> resLogicOff
    let pcUpdateNum := (flags &&& pcUpdateMask) >>> pcUpdateOff
    let apUpdateNum := (flags &&& apUpdateMask) >>> apUpdateOff
    let opcodeNum := (flags &&& opcodeMask) >>> opcodeOff
    let dstRegister := registerOf dstRegNum
    let op0Register := registerOf op0RegNum
    let op1Addr ← op1AddrOf op1SrcNum
    let pcUpdate ← pcUpdateOf pcUpdateNum
    let res ← resOf resLogicNum pcUpdate
    let opcode ← opcodeOf opcodeNum
    let apUpdate ← apUpdateOf apUpdateNum opcode
    let fpUpdate := fpUpdateOf opcode
    pure {
      off0, off1, off2, dstRegister, op0Register, op1Addr, res, pcUpdate, apUpdate,
      fpUpdate, opcode }

end CairoVM
