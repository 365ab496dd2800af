import CairoVM.Codec.LittleEndian
import CairoVM.Model.Decoder

/-!
# The fields that the decoder reads

`decode_instruction` reads every part of an instruction by a shift and a mask.  Here
these reads are stated as fields of the word, and the switches over them as tests for
at most one set bit.
-/

namespace CairoVM

open BitField

/-! ## Offsets -/

/-- A decoded offset is the low half word less its bias. -/
theorem decodeOffset_eq (offset : UInt64) :
    decodeOffset offset = (field 0 16 offset.toNat : Int) - 2 ^ 15 := by
  have low : ((u64ToLeBytes offset (Vector.replicate 8 0))[0]).toNat =
      field 0 8 offset.toNat := toNat_getElem_toLeBytes offset.toNat _ (by decide)
  have high : ((u64ToLeBytes offset (Vector.replicate 8 0))[1]).toNat =
      field 8 8 offset.toNat := toNat_getElem_toLeBytes offset.toNat _ (by decide)
  have value : (u16FromLeBytes #v[(u64ToLeBytes offset (Vector.replicate 8 0))[0],
      (u64ToLeBytes offset (Vector.replicate 8 0))[1]]).toNat =
        field 0 16 offset.toNat := by
    rw [toNat_u16FromLeBytes, field_add_width 0 8 8]
    exact congrArg₂ (fun low high => low + 2 ^ 8 * high) low high
  rw [← value]
  rfl

/-- The offset read from bit `shift` on. -/
theorem decodeOffset_field (encodedInstr shift : UInt64) (small : shift.toNat < 64) :
    decodeOffset (encodedInstr >>> shift &&& 0xFFFF) =
      (field shift.toNat 16 encodedInstr.toNat : Int) - 2 ^ 15 := by
  have mask : (0xFFFF : UInt64).toNat = 2 ^ 16 - 1 := rfl
  rw [decodeOffset_eq, UInt64.toNat_and, UInt64.toNat_shiftRight, Nat.mod_eq_of_lt small,
    mask, Nat.and_two_pow_sub_one_eq_mod]
  have masked : field 0 16 (encodedInstr.toNat >>> shift.toNat % 2 ^ 16) =
      field 0 16 (encodedInstr.toNat >>> shift.toNat) := by
    rw [field, field, Nat.pow_zero, Nat.div_one, Nat.div_one, Nat.mod_mod]
  rw [masked, field_shiftRight, Nat.add_zero]

/-! ## Flags -/

/-- A masked and shifted flag group is a field of the word. -/
theorem toNat_flags {width : Nat} (encodedInstr mask shift : UInt64)
    (ones : mask.toNat = (2 ^ width - 1) <<< shift.toNat) (small : shift.toNat < 64) :
    ((encodedInstr >>> 48 &&& mask) >>> shift).toNat =
      field (48 + shift.toNat) width encodedInstr.toNat := by
  have start : (48 : UInt64).toNat % 64 = 48 := rfl
  rw [UInt64.toNat_shiftRight, UInt64.toNat_and, UInt64.toNat_shiftRight, ones,
    Nat.mod_eq_of_lt small, start, and_mask_shiftRight, field_shiftRight]

section FlagNumbers

variable (encodedInstr : UInt64)

theorem toNat_op1SrcNum :
    ((encodedInstr >>> 48 &&& 0x001C) >>> 2).toNat = field 50 3 encodedInstr.toNat :=
  toNat_flags encodedInstr 0x001C 2 rfl (by decide)

theorem toNat_resLogicNum :
    ((encodedInstr >>> 48 &&& 0x0060) >>> 5).toNat = field 53 2 encodedInstr.toNat :=
  toNat_flags encodedInstr 0x0060 5 rfl (by decide)

theorem toNat_pcUpdateNum :
    ((encodedInstr >>> 48 &&& 0x0380) >>> 7).toNat = field 55 3 encodedInstr.toNat :=
  toNat_flags encodedInstr 0x0380 7 rfl (by decide)

theorem toNat_apUpdateNum :
    ((encodedInstr >>> 48 &&& 0x0C00) >>> 10).toNat = field 58 2 encodedInstr.toNat :=
  toNat_flags encodedInstr 0x0C00 10 rfl (by decide)

theorem toNat_opcodeNum :
    ((encodedInstr >>> 48 &&& 0x7000) >>> 12).toNat = field 60 3 encodedInstr.toNat :=
  toNat_flags encodedInstr 0x7000 12 rfl (by decide)

end FlagNumbers

/-- The test of the high bit. -/
theorem highBit_iff (encodedInstr : UInt64) :
    encodedInstr &&& (1 : UInt64) <<< 63 ≠ 0 ↔ encodedInstr.toNat.testBit 63 = true := by
  have mask : ((1 : UInt64) <<< 63).toNat = 2 ^ 63 := rfl
  rw [ne_eq, ← UInt64.toNat_inj, UInt64.toNat_and, mask, Nat.and_two_pow]
  cases encodedInstr.toNat.testBit 63 <;> simp

/-! ## Switches -/

/-- Looking up a key of a list with different keys. -/
theorem lookup_eq_some_iff_mem {Flag : Type} {branches : List (Nat × Flag)}
    (distinct : (branches.map Prod.fst).Nodup) {num : Nat} {flag : Flag} :
    branches.lookup num = some flag ↔ (num, flag) ∈ branches := by
  induction branches with
  | nil => simp
  | cons branch branches ih =>
      rw [List.map_cons, List.nodup_cons] at distinct
      rw [List.lookup_cons, List.mem_cons]
      by_cases same : num = branch.1
      · subst same
        have absent : (branch.1, flag) ∉ branches := fun member =>
          distinct.1 (List.mem_map.mpr ⟨_, member, rfl⟩)
        simp [absent, Prod.ext_iff, eq_comm]
      · have different : (num == branch.1) = false := by simpa using same
        rw [different]
        simp [ih distinct.2, Prod.ext_iff, same]

/-- The branch that a switch takes. -/
theorem flagSwitch_eq_ok_iff {Flag : Type} {branches : List (Nat × Flag)}
    {error : VirtualMachineError} {num : UInt64} {flag : Flag}
    (distinct : (branches.map Prod.fst).Nodup) :
    flagSwitch branches error num = .ok flag ↔ (num.toNat, flag) ∈ branches := by
  rw [← lookup_eq_some_iff_mem distinct, flagSwitch]
  cases branches.lookup num.toNat <;> simp

/-- The result of a switch that accepts a flag group exactly when at most one of its
bits is set. -/
def TestsGroup {Flag : Type} (offset width word : Nat) (error : VirtualMachineError)
    (result : Except VirtualMachineError Flag) : Prop :=
  (AtMostOneBit offset width word ∧ ∃ flag, result = .ok flag) ∨
    (¬AtMostOneBit offset width word ∧ result = .error error)

/-- A switch whose branches are zero and the powers of two tests its flag group. -/
theorem testsGroup_flagSwitch {Flag : Type} {branches : List (Nat × Flag)}
    (error : VirtualMachineError) {num : UInt64} {offset width word : Nat}
    (values : branches.map Prod.fst = 0 :: (List.range width).map (2 ^ ·))
    (group : num.toNat = field offset width word) :
    TestsGroup offset width word error (flagSwitch branches error num) := by
  have isBranch : AtMostOneBit offset width word ↔
      num.toNat ∈ branches.map Prod.fst := by
    rw [atMostOneBit_iff, ← group, values, List.mem_cons, List.mem_map]
    simp only [List.mem_range, eq_comm]
  rw [TestsGroup, isBranch, flagSwitch]
  cases found : branches.lookup num.toNat with
  | some flag =>
      left
      obtain ⟨before, after, split, -⟩ := List.lookup_eq_some_iff.mp found
      exact ⟨by simp [split], flag, rfl⟩
  | none =>
      right
      refine ⟨fun member => ?_, rfl⟩
      obtain ⟨branch, inBranches, same⟩ := List.mem_map.mp member
      have different := List.lookup_eq_none_iff.mp found branch inBranches
      simp [same] at different

section Groups

variable (encodedInstr : UInt64)

theorem testsGroup_op1AddrOf :
    TestsGroup 50 3 encodedInstr.toNat .invalidOp1Reg
      (op1AddrOf ((encodedInstr >>> 48 &&& 0x001C) >>> 2)) :=
  testsGroup_flagSwitch _ rfl (toNat_op1SrcNum encodedInstr)

theorem testsGroup_pcUpdateOf :
    TestsGroup 55 3 encodedInstr.toNat .invalidPcUpdate
      (pcUpdateOf ((encodedInstr >>> 48 &&& 0x0380) >>> 7)) :=
  testsGroup_flagSwitch _ rfl (toNat_pcUpdateNum encodedInstr)

theorem testsGroup_resOf (pcUpdate : PcUpdate) :
    TestsGroup 53 2 encodedInstr.toNat .invalidRes
      (resOf ((encodedInstr >>> 48 &&& 0x0060) >>> 5) pcUpdate) :=
  testsGroup_flagSwitch _ rfl (toNat_resLogicNum encodedInstr)

theorem testsGroup_opcodeOf :
    TestsGroup 60 3 encodedInstr.toNat .invalidOpcode
      (opcodeOf ((encodedInstr >>> 48 &&& 0x7000) >>> 12)) :=
  testsGroup_flagSwitch _ rfl (toNat_opcodeNum encodedInstr)

theorem testsGroup_apUpdateOf (opcode : Opcode) :
    TestsGroup 58 2 encodedInstr.toNat .invalidApUpdate
      (apUpdateOf ((encodedInstr >>> 48 &&& 0x0C00) >>> 10) opcode) :=
  testsGroup_flagSwitch _ rfl (toNat_apUpdateNum encodedInstr)

end Groups

end CairoVM
