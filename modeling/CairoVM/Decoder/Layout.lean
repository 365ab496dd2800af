import CairoVM.Decoder.Fields
import CairoVM.Library.Failing
import Mathlib.Data.Set.Function

/-!
# The layout of an instruction word

The layout of `instruction.h`, written as an encoder: three biased offsets, then the
flag groups from bit 48 on, and a zero in bit 63.  On the words that it accepts, the
decoder is the inverse of this encoder.
-/

namespace CairoVM

open BitField Failing

/-! ## Well-formed instructions -/

/-- The values that the result logic leaves possible.  A conditional jump has no
result that equals the second operand. -/
def allowedRes (pcUpdate : PcUpdate) : List Res :=
  if pcUpdate = .jnz then [.unconstrained, .resAdd, .mul] else [.op1, .resAdd, .mul]

/-- The updates of `ap` that an opcode leaves possible.  A call always moves it. -/
def allowedApUpdate (opcode : Opcode) : List ApUpdate :=
  if opcode = .call then [.add2, .add, .add1] else [.apRegular, .add, .add1]

/-- An offset that fits into its biased half word. -/
def OffsetFits (offset : Int) : Prop := -2 ^ 15 ≤ offset ∧ offset ≤ 2 ^ 15 - 1

/-- An instruction that has a word. -/
structure WellFormed (instruction : Instruction) : Prop where
  off0_fits : OffsetFits instruction.off0
  off1_fits : OffsetFits instruction.off1
  off2_fits : OffsetFits instruction.off2
  res_allowed : instruction.res ∈ allowedRes instruction.pcUpdate
  apUpdate_allowed : instruction.apUpdate ∈ allowedApUpdate instruction.opcode
  fpUpdate_eq : instruction.fpUpdate =
    if instruction.opcode = .call then .apPlus2
    else if instruction.opcode = .ret then .dst
    else .fpRegular

/-! ## Flag values -/

/-- The bit of a register. -/
def Register.flags : Register → Nat
  | .regAp => 0
  | .regFp => 1

/-- The source bits of the second operand. -/
def Op1Addr.flags : Op1Addr → Nat
  | .op0 => 0
  | .imm => 1
  | .opFp => 2
  | .opAp => 4

/-- The result logic bits. -/
def Res.flags : Res → Nat
  | .op1 => 0
  | .unconstrained => 0
  | .resAdd => 1
  | .mul => 2

/-- The bits of an update of `pc`. -/
def PcUpdate.flags : PcUpdate → Nat
  | .pcRegular => 0
  | .jump => 1
  | .jumpRel => 2
  | .jnz => 4

/-- The bits of an update of `ap`. -/
def ApUpdate.flags : ApUpdate → Nat
  | .apRegular => 0
  | .add2 => 0
  | .add => 1
  | .add1 => 2

/-- The bits of an opcode. -/
def Opcode.flags : Opcode → Nat
  | .nop => 0
  | .call => 1
  | .ret => 2
  | .assertEq => 4

/-! ## Encoding -/

/-- The biased representation of an offset. -/
def biased (offset : Int) : Nat := (offset + 2 ^ 15).toNat

/-- The parts of an instruction word with their widths, from bit 0 on. -/
def layout (instruction : Instruction) : Fields :=
  [(16, biased instruction.off0), (16, biased instruction.off1),
    (16, biased instruction.off2),
    (1, instruction.dstRegister.flags), (1, instruction.op0Register.flags),
    (3, instruction.op1Addr.flags), (2, instruction.res.flags),
    (3, instruction.pcUpdate.flags), (2, instruction.apUpdate.flags),
    (3, instruction.opcode.flags), (1, 0)]

/-- The word of an instruction. -/
def encodeInstruction (instruction : Instruction) : UInt64 :=
  UInt64.ofNat (pack (layout instruction))

/-! ## Decoding -/

theorem op1AddrOf_eq_ok_iff {num : UInt64} {op1Addr : Op1Addr} :
    op1AddrOf num = .ok op1Addr ↔ num.toNat = op1Addr.flags := by
  rw [op1AddrOf, flagSwitch_eq_ok_iff (by decide)]
  cases op1Addr <;> simp [Op1Addr.flags]

theorem pcUpdateOf_eq_ok_iff {num : UInt64} {pcUpdate : PcUpdate} :
    pcUpdateOf num = .ok pcUpdate ↔ num.toNat = pcUpdate.flags := by
  rw [pcUpdateOf, flagSwitch_eq_ok_iff (by decide)]
  cases pcUpdate <;> simp [PcUpdate.flags]

theorem opcodeOf_eq_ok_iff {num : UInt64} {opcode : Opcode} :
    opcodeOf num = .ok opcode ↔ num.toNat = opcode.flags := by
  rw [opcodeOf, flagSwitch_eq_ok_iff (by decide)]
  cases opcode <;> simp [Opcode.flags]

/-- The value zero of the result logic depends on the update of `pc`. -/
theorem resOf_eq_ok_iff {num : UInt64} {pcUpdate : PcUpdate} {res : Res} :
    resOf num pcUpdate = .ok res ↔
      num.toNat = res.flags ∧ res ∈ allowedRes pcUpdate := by
  rw [resOf, flagSwitch_eq_ok_iff (by simp), allowedRes]
  by_cases isJnz : pcUpdate = .jnz
  · cases res <;> simp [Res.flags, isJnz]
  · cases res <;> simp [Res.flags, isJnz]

/-- The value zero of the update of `ap` depends on the opcode. -/
theorem apUpdateOf_eq_ok_iff {num : UInt64} {opcode : Opcode} {apUpdate : ApUpdate} :
    apUpdateOf num opcode = .ok apUpdate ↔
      num.toNat = apUpdate.flags ∧ apUpdate ∈ allowedApUpdate opcode := by
  rw [apUpdateOf, flagSwitch_eq_ok_iff (by simp), allowedApUpdate]
  by_cases isCall : opcode = .call
  · cases apUpdate <;> simp [ApUpdate.flags, isCall]
  · cases apUpdate <;> simp [ApUpdate.flags, isCall]

theorem registerOf_eq_iff {num : UInt64} {register : Register} (bit : num.toNat < 2) :
    registerOf num = register ↔ num.toNat = register.flags := by
  have one : num = 1 ↔ num.toNat = 1 := UInt64.toNat_inj.symm
  rw [registerOf]
  simp only [one]
  cases register with
  | regAp =>
      simp only [Register.flags]
      split <;> simp <;> omega
  | regFp => simp [Register.flags]

/-- The fields of a word read as the parts of an instruction. -/
structure ReadsAs (word : Nat) (instruction : Instruction) : Prop where
  off0 : instruction.off0 = (field 0 16 word : Int) - 2 ^ 15
  off1 : instruction.off1 = (field 16 16 word : Int) - 2 ^ 15
  off2 : instruction.off2 = (field 32 16 word : Int) - 2 ^ 15
  dstRegister : field 48 1 word = instruction.dstRegister.flags
  op0Register : field 49 1 word = instruction.op0Register.flags
  op1Addr : field 50 3 word = instruction.op1Addr.flags
  res : field 53 2 word = instruction.res.flags
  pcUpdate : field 55 3 word = instruction.pcUpdate.flags
  apUpdate : field 58 2 word = instruction.apUpdate.flags
  opcode : field 60 3 word = instruction.opcode.flags
  highBit : field 63 1 word = 0

theorem registerOf_field {encodedInstr mask shift : UInt64} {register : Register}
    (ones : mask.toNat = (2 ^ 1 - 1) <<< shift.toNat) (small : shift.toNat < 64) :
    registerOf ((encodedInstr >>> 48 &&& mask) >>> shift) = register ↔
      field (48 + shift.toNat) 1 encodedInstr.toNat = register.flags := by
  have value := toNat_flags encodedInstr mask shift ones small
  rw [registerOf_eq_iff, value]
  rw [value]
  exact field_lt _ 1 _

/-- The decoder accepts a word exactly when its fields read as the parts of an
instruction, whose other parts are then determined. -/
theorem decodeInstruction_eq_ok_iff {encodedInstr : UInt64}
    {instruction : Instruction} :
    decodeInstruction encodedInstr = .ok instruction ↔
      ReadsAs encodedInstr.toNat instruction ∧
      instruction.res ∈ allowedRes instruction.pcUpdate ∧
      instruction.apUpdate ∈ allowedApUpdate instruction.opcode ∧
      instruction.fpUpdate = fpUpdateOf instruction.opcode := by
  have highField : field 63 1 encodedInstr.toNat = 0 ↔
      ¬encodedInstr.toNat.testBit 63 = true := by
    have bit : field 63 1 encodedInstr.toNat = (encodedInstr.toNat.testBit 63).toNat :=
      (Nat.toNat_testBit _ _).symm
    rw [bit]
    cases encodedInstr.toNat.testBit 63 <;> decide
  unfold decodeInstruction
  by_cases highBit : encodedInstr.toNat.testBit 63 = true
  · rw [if_pos ((highBit_iff encodedInstr).mpr highBit)]
    refine ⟨fun decoded => (by cases decoded), fun reads => ?_⟩
    exact absurd highBit (highField.mp reads.1.highBit)
  rw [if_neg (mt (highBit_iff encodedInstr).mp highBit)]
  simp only [bind_eq_ok_iff, pure, Except.pure, Except.ok.injEq,
    op1AddrOf_eq_ok_iff, pcUpdateOf_eq_ok_iff, resOf_eq_ok_iff, opcodeOf_eq_ok_iff,
    apUpdateOf_eq_ok_iff]
  have dst : ∀ register, registerOf ((encodedInstr >>> 48 &&& 0x0001) >>> 0) = register ↔
      field 48 1 encodedInstr.toNat = register.flags := fun _ =>
    registerOf_field rfl (by decide)
  have op0 : ∀ register, registerOf ((encodedInstr >>> 48 &&& 0x0002) >>> 1) = register ↔
      field 49 1 encodedInstr.toNat = register.flags := fun _ =>
    registerOf_field rfl (by decide)
  have off0 := decodeOffset_field encodedInstr 0 (by decide)
  have off1 := decodeOffset_field encodedInstr 16 (by decide)
  have off2 := decodeOffset_field encodedInstr 32 (by decide)
  simp only [toNat_op1SrcNum, toNat_resLogicNum, toNat_pcUpdateNum, toNat_apUpdateNum,
    toNat_opcodeNum]
  constructor
  · rintro ⟨op1Addr, op1AddrEq, pcUpdate, pcUpdateEq, res, ⟨resEq, resAllowed⟩, opcode,
      opcodeEq, apUpdate, ⟨apUpdateEq, apUpdateAllowed⟩, rfl⟩
    exact ⟨⟨off0, off1, off2, (dst _).mp rfl, (op0 _).mp rfl, op1AddrEq, resEq, pcUpdateEq,
      apUpdateEq, opcodeEq, highField.mpr highBit⟩, resAllowed, apUpdateAllowed, rfl⟩
  · rintro ⟨reads, resAllowed, apUpdateAllowed, fpUpdateEq⟩
    refine ⟨_, reads.op1Addr, _, reads.pcUpdate, _, ⟨reads.res, resAllowed⟩, _,
      reads.opcode, _, ⟨reads.apUpdate, apUpdateAllowed⟩, ?_⟩
    rw [off0.trans reads.off0.symm, off1.trans reads.off1.symm,
      off2.trans reads.off2.symm, (dst _).mpr reads.dstRegister,
      (op0 _).mpr reads.op0Register, ← fpUpdateEq]

/-- Of the words that the decoder accepts, those with bit 50 take up a second word for an
immediate value. -/
theorem instructionSize_eq_two_iff {encodedInstr : UInt64} {instruction : Instruction}
    (decoded : decodeInstruction encodedInstr = .ok instruction) :
    instructionSize instruction = 2 ↔ encodedInstr.toNat.testBit 50 = true := by
  have reads := (decodeInstruction_eq_ok_iff.mp decoded).1.op1Addr
  have bit : (field 50 3 encodedInstr.toNat).testBit 0 = encodedInstr.toNat.testBit 50 := by
    rw [testBit_field]
    rfl
  rw [← bit, reads, instructionSize]
  cases instruction.op1Addr <;> decide

/-! ## The decoder and the encoder -/

/-- Reading a biased offset back. -/
theorem offset_eq_iff {offset : Int} {value : Nat} (bound : value < 2 ^ 16) :
    offset = (value : Int) - 2 ^ 15 ↔ OffsetFits offset ∧ value = biased offset := by
  rw [OffsetFits, biased]
  omega

theorem fits_layout {instruction : Instruction} (off0 : OffsetFits instruction.off0)
    (off1 : OffsetFits instruction.off1) (off2 : OffsetFits instruction.off2) :
    Fits (layout instruction) := by
  have biasedFits : ∀ {offset : Int}, OffsetFits offset → biased offset < 2 ^ 16 := by
    intro offset fits
    rw [OffsetFits] at fits
    rw [biased]
    omega
  simp only [layout, fits_cons, fits_nil, and_true]
  refine ⟨biasedFits off0, biasedFits off1, biasedFits off2, ?_, ?_, ?_, ?_, ?_, ?_, ?_, ?_⟩
  · cases instruction.dstRegister <;> decide
  · cases instruction.op0Register <;> decide
  · cases instruction.op1Addr <;> decide
  · cases instruction.res <;> decide
  · cases instruction.pcUpdate <;> decide
  · cases instruction.apUpdate <;> decide
  · cases instruction.opcode <;> decide
  · decide

theorem eq_encodeInstruction_iff {encodedInstr : UInt64} {instruction : Instruction}
    (fits : Fits (layout instruction)) :
    encodedInstr = encodeInstruction instruction ↔
      fieldsFrom 0 ((layout instruction).map Prod.fst) encodedInstr.toNat =
        (layout instruction).map Prod.snd := by
  have packed : pack (layout instruction) < 2 ^ 64 := pack_lt fits
  have bound : encodedInstr.toNat < 2 ^ 64 := UInt64.toNat_lt encodedInstr
  rw [← unpack_eq_fieldsFrom, ← eq_pack_iff fits bound, ← UInt64.toNat_inj,
    encodeInstruction, UInt64.toNat_ofNat_of_lt' packed]

/-- The words that read as an instruction. -/
theorem readsAs_iff {encodedInstr : UInt64} {instruction : Instruction} :
    ReadsAs encodedInstr.toNat instruction ↔
      OffsetFits instruction.off0 ∧ OffsetFits instruction.off1 ∧
      OffsetFits instruction.off2 ∧ encodedInstr = encodeInstruction instruction := by
  constructor
  · intro reads
    obtain ⟨off0, field0⟩ := (offset_eq_iff (field_lt _ _ _)).mp reads.off0
    obtain ⟨off1, field1⟩ := (offset_eq_iff (field_lt _ _ _)).mp reads.off1
    obtain ⟨off2, field2⟩ := (offset_eq_iff (field_lt _ _ _)).mp reads.off2
    refine ⟨off0, off1, off2, ?_⟩
    rw [eq_encodeInstruction_iff (fits_layout off0 off1 off2)]
    simp only [layout, List.map_cons, List.map_nil, fieldsFrom, Nat.reduceAdd, field0,
      field1, field2, reads.dstRegister, reads.op0Register, reads.op1Addr, reads.res,
      reads.pcUpdate, reads.apUpdate, reads.opcode, reads.highBit]
  · rintro ⟨off0, off1, off2, encoded⟩
    rw [eq_encodeInstruction_iff (fits_layout off0 off1 off2)] at encoded
    simp only [layout, List.map_cons, List.map_nil, fieldsFrom, Nat.reduceAdd,
      List.cons.injEq, and_true] at encoded
    obtain ⟨field0, field1, field2, dstRegister, op0Register, op1Addr, res, pcUpdate,
      apUpdate, opcode, highBit⟩ := encoded
    exact ⟨(offset_eq_iff (field_lt _ _ _)).mpr ⟨off0, field0⟩,
      (offset_eq_iff (field_lt _ _ _)).mpr ⟨off1, field1⟩,
      (offset_eq_iff (field_lt _ _ _)).mpr ⟨off2, field2⟩,
      dstRegister, op0Register, op1Addr, res, pcUpdate, apUpdate, opcode, highBit⟩

theorem fpUpdateOf_eq (opcode : Opcode) :
    fpUpdateOf opcode = if opcode = .call then .apPlus2
      else if opcode = .ret then .dst else .fpRegular := by
  cases opcode <;> rfl

/-- A word decodes to an instruction exactly when the instruction is well-formed and
the word is its encoding. -/
theorem decodeInstruction_eq_ok_iff_encode {encodedInstr : UInt64}
    {instruction : Instruction} :
    decodeInstruction encodedInstr = .ok instruction ↔
      WellFormed instruction ∧ encodedInstr = encodeInstruction instruction := by
  rw [decodeInstruction_eq_ok_iff, readsAs_iff, fpUpdateOf_eq]
  constructor
  · rintro ⟨⟨off0, off1, off2, encoded⟩, res, apUpdate, fpUpdate⟩
    exact ⟨⟨off0, off1, off2, res, apUpdate, fpUpdate⟩, encoded⟩
  · rintro ⟨wellFormed, encoded⟩
    exact ⟨⟨wellFormed.off0_fits, wellFormed.off1_fits, wellFormed.off2_fits, encoded⟩,
      wellFormed.res_allowed, wellFormed.apUpdate_allowed, wellFormed.fpUpdate_eq⟩

/-- On the words it accepts, the decoder is a bijection onto the well-formed
instructions, and its inverse is the layout of `instruction.h`. -/
theorem decodeInstruction_bijOn :
    Set.BijOn decodeInstruction
      {encodedInstr | ∃ instruction, decodeInstruction encodedInstr = .ok instruction}
      (Set.image .ok {instruction | WellFormed instruction}) ∧
    (∀ instruction, WellFormed instruction →
      decodeInstruction (encodeInstruction instruction) = .ok instruction ∧
      ∀ encodedInstr, decodeInstruction encodedInstr = .ok instruction →
        encodedInstr = encodeInstruction instruction) := by
  have inverse : ∀ instruction, WellFormed instruction →
      decodeInstruction (encodeInstruction instruction) = .ok instruction :=
    fun instruction wellFormed =>
      decodeInstruction_eq_ok_iff_encode.mpr ⟨wellFormed, rfl⟩
  refine ⟨⟨?_, ?_, ?_⟩, ?_⟩
  · rintro encodedInstr ⟨instruction, decoded⟩
    exact ⟨instruction, (decodeInstruction_eq_ok_iff_encode.mp decoded).1, decoded.symm⟩
  · rintro first ⟨instruction, decoded⟩ second - same
    have second := same.symm.trans decoded
    rw [(decodeInstruction_eq_ok_iff_encode.mp decoded).2,
      (decodeInstruction_eq_ok_iff_encode.mp second).2]
  · rintro _ ⟨instruction, wellFormed, rfl⟩
    exact ⟨encodeInstruction instruction, ⟨instruction, inverse instruction wellFormed⟩,
      inverse instruction wellFormed⟩
  · intro instruction wellFormed
    exact ⟨inverse instruction wellFormed, fun encodedInstr decoded =>
      (decodeInstruction_eq_ok_iff_encode.mp decoded).2⟩

end CairoVM
