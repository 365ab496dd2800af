/-!
# Instructions

The types of `instruction.h`.
-/

namespace CairoVM

/-- `Register`. -/
inductive Register where
  | regAp
  | regFp
  deriving DecidableEq, Repr

/-- `Op1Addr`. -/
inductive Op1Addr where
  | imm
  | opAp
  | opFp
  | op0
  deriving DecidableEq, Repr

/-- `Res`. -/
inductive Res where
  | op1
  | resAdd
  | mul
  | unconstrained
  deriving DecidableEq, Repr

/-- `PcUpdate`. -/
inductive PcUpdate where
  | pcRegular
  | jump
  | jumpRel
  | jnz
  deriving DecidableEq, Repr

/-- `ApUpdate`. -/
inductive ApUpdate where
  | apRegular
  | add
  | add1
  | add2
  deriving DecidableEq, Repr

/-- `FpUpdate`. -/
inductive FpUpdate where
  | fpRegular
  | apPlus2
  | dst
  deriving DecidableEq, Repr

/-- `Opcode`. -/
inductive Opcode where
  | nop
  | assertEq
  | call
  | ret
  deriving DecidableEq, Repr

/-- `Instruction`.  The offsets are `int64_t`, of which 16 bits are used. -/
structure Instruction where
  off0 : Int
  off1 : Int
  off2 : Int
  dstRegister : Register
  op0Register : Register
  op1Addr : Op1Addr
  res : Res
  pcUpdate : PcUpdate
  apUpdate : ApUpdate
  fpUpdate : FpUpdate
  opcode : Opcode
  deriving DecidableEq, Repr

/-- `instruction_size`. -/
def instructionSize (instruction : Instruction) : UInt64 :=
  if instruction.op1Addr = .imm then 2 else 1

/-- `VirtualMachineError`. -/
inductive VirtualMachineError where
  | instructionNonZeroHighBit
  | invalidOp1Reg
  | invalidPcUpdate
  | invalidRes
  | invalidOpcode
  | invalidApUpdate
  deriving DecidableEq, Repr

/-- `ResultInstruction`: the `is_error` tag together with the member of the union that
it selects. -/
abbrev ResultInstruction := Except VirtualMachineError Instruction

end CairoVM
