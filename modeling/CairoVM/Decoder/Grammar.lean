import CairoVM.Decoder.Fields

/-!
# Which words are accepted, and which error is returned

Bit 63 of an instruction word is zero, and each of the five flag groups has at most
one bit set.  The decoder tests these conditions in an order of its own and returns
the error of the first one that fails.  None of them depends on the offsets or on the
registers.
-/

namespace CairoVM

open BitField

/-- The condition on a word whose violation is reported by an error. -/
def GrammarCondition (encodedInstr : UInt64) : VirtualMachineError → Prop
  | .instructionNonZeroHighBit => encodedInstr.toNat.testBit 63 = false
  | .invalidOp1Reg => AtMostOneBit 50 3 encodedInstr.toNat
  | .invalidPcUpdate => AtMostOneBit 55 3 encodedInstr.toNat
  | .invalidRes => AtMostOneBit 53 2 encodedInstr.toNat
  | .invalidOpcode => AtMostOneBit 60 3 encodedInstr.toNat
  | .invalidApUpdate => AtMostOneBit 58 2 encodedInstr.toNat

instance (encodedInstr : UInt64) : DecidablePred (GrammarCondition encodedInstr)
  | .instructionNonZeroHighBit =>
      inferInstanceAs (Decidable (encodedInstr.toNat.testBit 63 = false))
  | .invalidOp1Reg => inferInstanceAs (Decidable (AtMostOneBit 50 3 _))
  | .invalidPcUpdate => inferInstanceAs (Decidable (AtMostOneBit 55 3 _))
  | .invalidRes => inferInstanceAs (Decidable (AtMostOneBit 53 2 _))
  | .invalidOpcode => inferInstanceAs (Decidable (AtMostOneBit 60 3 _))
  | .invalidApUpdate => inferInstanceAs (Decidable (AtMostOneBit 58 2 _))

/-- The errors in the order in which their conditions are tested. -/
def blameOrder : List VirtualMachineError :=
  [.instructionNonZeroHighBit, .invalidOp1Reg, .invalidPcUpdate, .invalidRes,
    .invalidOpcode, .invalidApUpdate]

theorem mem_blameOrder (error : VirtualMachineError) : error ∈ blameOrder := by
  cases error <;> decide

/-- The error of the first violated condition. -/
def firstViolated (encodedInstr : UInt64) : Option VirtualMachineError :=
  blameOrder.find? fun error => ¬GrammarCondition encodedInstr error

/-- No condition is violated first exactly when all of them hold. -/
theorem firstViolated_eq_none_iff {encodedInstr : UInt64} :
    firstViolated encodedInstr = none ↔
      ∀ error, GrammarCondition encodedInstr error := by
  simp [firstViolated, mem_blameOrder]

/-- The decoder returns the error of the first violated condition, and an instruction
if there is none. -/
theorem decodeInstruction_firstViolated (encodedInstr : UInt64) :
    (∃ error, firstViolated encodedInstr = some error ∧
      decodeInstruction encodedInstr = .error error) ∨
    (firstViolated encodedInstr = none ∧
      ∃ instruction, decodeInstruction encodedInstr = .ok instruction) := by
  unfold decodeInstruction firstViolated blameOrder
  by_cases highBit : encodedInstr.toNat.testBit 63 = true
  · rw [if_pos ((highBit_iff encodedInstr).mpr highBit)]
    simp [GrammarCondition, highBit]
  rw [if_neg (mt (highBit_iff encodedInstr).mp highBit)]
  rcases testsGroup_op1AddrOf encodedInstr with ⟨op1Src, op1Addr, ok⟩ | ⟨op1Src, failed⟩
  case inr => simp [failed, bind, Except.bind, GrammarCondition, highBit, op1Src]
  simp only [ok, bind, Except.bind]
  rcases testsGroup_pcUpdateOf encodedInstr with ⟨pc, pcUpdate, ok⟩ | ⟨pc, failed⟩
  case inr => simp [failed, GrammarCondition, highBit, op1Src, pc]
  simp only [ok]
  rcases testsGroup_resOf encodedInstr pcUpdate with ⟨resLogic, res, ok⟩ | ⟨resLogic, failed⟩
  case inr => simp [failed, GrammarCondition, highBit, op1Src, pc, resLogic]
  simp only [ok]
  rcases testsGroup_opcodeOf encodedInstr with ⟨code, opcode, ok⟩ | ⟨code, failed⟩
  case inr => simp [failed, GrammarCondition, highBit, op1Src, pc, resLogic, code]
  simp only [ok]
  rcases testsGroup_apUpdateOf encodedInstr opcode with ⟨ap, apUpdate, ok⟩ | ⟨ap, failed⟩
  case inr => simp [failed, GrammarCondition, highBit, op1Src, pc, resLogic, code, ap]
  simp only [ok]
  simp [GrammarCondition, highBit, op1Src, pc, resLogic, code, ap, pure, Except.pure]

theorem exists_decodeInstruction_ok_iff {encodedInstr : UInt64} :
    (∃ instruction, decodeInstruction encodedInstr = .ok instruction) ↔
      firstViolated encodedInstr = none := by
  rcases decodeInstruction_firstViolated encodedInstr with
    ⟨error, violated, failed⟩ | ⟨none, accepted⟩
  · simp [violated, failed]
  · simp [none, accepted]

theorem decodeInstruction_error_iff {encodedInstr : UInt64}
    {error : VirtualMachineError} :
    decodeInstruction encodedInstr = .error error ↔
      firstViolated encodedInstr = some error := by
  rcases decodeInstruction_firstViolated encodedInstr with
    ⟨blamed, violated, failed⟩ | ⟨none, instruction, accepted⟩
  · simp [violated, failed]
  · simp [none, accepted]

/-- Only the bits from 50 on decide about the conditions. -/
theorem firstViolated_congr {encodedInstr other : UInt64}
    (sameFlags : ∀ bit, 50 ≤ bit →
      encodedInstr.toNat.testBit bit = other.toNat.testBit bit) :
    firstViolated encodedInstr = firstViolated other := by
  have sameGroup : ∀ offset width, 50 ≤ offset →
      (AtMostOneBit offset width encodedInstr.toNat ↔
        AtMostOneBit offset width other.toNat) := by
    intro offset width above
    rw [atMostOneBit_iff, atMostOneBit_iff,
      field_congr fun bit inside _ => sameFlags bit (Nat.le_trans above inside)]
  have sameCondition : ∀ error,
      GrammarCondition encodedInstr error ↔ GrammarCondition other error := by
    intro error
    cases error with
    | instructionNonZeroHighBit =>
        rw [GrammarCondition, GrammarCondition, sameFlags 63 (by decide)]
    | invalidOp1Reg => exact sameGroup 50 3 (by decide)
    | invalidPcUpdate => exact sameGroup 55 3 (by decide)
    | invalidRes => exact sameGroup 53 2 (by decide)
    | invalidOpcode => exact sameGroup 60 3 (by decide)
    | invalidApUpdate => exact sameGroup 58 2 (by decide)
  simp only [firstViolated, sameCondition]

/-- The instruction grammar: a word is accepted when bit 63 is zero and no flag group
has two bits set, another word is rejected with the error of the first violated
condition, and the offset and register bits play no part in either. -/
theorem decodeInstruction_grammar (encodedInstr : UInt64) :
    ((∃ instruction, decodeInstruction encodedInstr = .ok instruction) ↔
      encodedInstr.toNat.testBit 63 = false ∧
        AtMostOneBit 50 3 encodedInstr.toNat ∧ AtMostOneBit 53 2 encodedInstr.toNat ∧
        AtMostOneBit 55 3 encodedInstr.toNat ∧ AtMostOneBit 58 2 encodedInstr.toNat ∧
        AtMostOneBit 60 3 encodedInstr.toNat) ∧
    (∀ error, decodeInstruction encodedInstr = .error error ↔
      ∃ before after, blameOrder = before ++ error :: after ∧
        ¬GrammarCondition encodedInstr error ∧
        ∀ earlier ∈ before, GrammarCondition encodedInstr earlier) ∧
    ∀ other : UInt64,
      (∀ bit, 50 ≤ bit → encodedInstr.toNat.testBit bit = other.toNat.testBit bit) →
      ((∃ instruction, decodeInstruction encodedInstr = .ok instruction) ↔
        ∃ instruction, decodeInstruction other = .ok instruction) ∧
      ∀ error, decodeInstruction encodedInstr = .error error ↔
        decodeInstruction other = .error error := by
  refine ⟨?_, ?_, ?_⟩
  · rw [exists_decodeInstruction_ok_iff, firstViolated_eq_none_iff]
    constructor
    · intro holds
      exact ⟨holds .instructionNonZeroHighBit, holds .invalidOp1Reg, holds .invalidRes,
        holds .invalidPcUpdate, holds .invalidApUpdate, holds .invalidOpcode⟩
    · rintro ⟨highBit, op1Src, resLogic, pc, ap, opcode⟩ error
      cases error <;> assumption
  · intro error
    rw [decodeInstruction_error_iff, firstViolated, List.find?_eq_some_iff_append]
    simp only [decide_not, Bool.not_eq_true', decide_eq_false_iff_not, Bool.not_not,
      decide_eq_true_eq]
    constructor
    · rintro ⟨violated, before, after, split, hold⟩
      exact ⟨before, after, split, violated, hold⟩
    · rintro ⟨before, after, split, violated, hold⟩
      exact ⟨violated, before, after, split, hold⟩
  · intro other sameFlags
    have same := firstViolated_congr sameFlags
    simp only [exists_decodeInstruction_ok_iff, decodeInstruction_error_iff, same,
      implies_true, and_self]

end CairoVM
