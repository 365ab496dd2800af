import Mathlib.Algebra.Ring.Nat
import Mathlib.Data.Nat.Bitwise
import Mathlib.Data.List.Basic

/-!
# Bit fields of a word

A word is cut into fields of given widths, from the least significant bit on.  Reading
the fields and assembling them again are inverse to each other, and a mask followed by
a shift reads one of them.  The last section characterizes the fields in which at most
one bit is set.
-/

namespace BitField

/-- The `width` bits of `word` from bit `offset` on. -/
def field (offset width word : Nat) : Nat := word / 2 ^ offset % 2 ^ width

theorem field_lt (offset width word : Nat) : field offset width word < 2 ^ width :=
  Nat.mod_lt _ (Nat.two_pow_pos width)

@[simp] theorem testBit_field (offset width word index : Nat) :
    (field offset width word).testBit index =
      (decide (index < width) && word.testBit (offset + index)) := by
  rw [field, Nat.testBit_mod_two_pow, Nat.testBit_div_two_pow, Nat.add_comm]

/-- Shifting first and reading then is reading further up. -/
theorem field_shiftRight (start offset width word : Nat) :
    field offset width (word >>> start) = field (start + offset) width word := by
  rw [field, field, Nat.shiftRight_eq_div_pow, Nat.div_div_eq_div_mul, Nat.pow_add]

/-- A field is its low part together with its high part. -/
theorem field_add_width (offset low high word : Nat) :
    field offset (low + high) word =
      field offset low word + 2 ^ low * field (offset + low) high word := by
  rw [field, field, field, Nat.pow_add, Nat.mod_mul, Nat.div_div_eq_div_mul,
    ← Nat.pow_add]

/-- A mask of `width` ones at `offset`, and a shift to the right, read a field. -/
theorem and_mask_shiftRight (word offset width : Nat) :
    (word &&& (2 ^ width - 1) <<< offset) >>> offset = field offset width word := by
  apply Nat.eq_of_testBit_eq
  intro index
  rw [Nat.testBit_shiftRight, Nat.testBit_and, Nat.testBit_shiftLeft,
    Nat.testBit_two_pow_sub_one, testBit_field, Bool.and_comm]
  simp

/-- Words that agree on the bits of a field have the same field. -/
theorem field_congr {offset width word other : Nat}
    (agree : ∀ index, offset ≤ index → index < offset + width →
      word.testBit index = other.testBit index) :
    field offset width word = field offset width other := by
  apply Nat.eq_of_testBit_eq
  intro index
  rw [testBit_field, testBit_field]
  by_cases inside : index < width
  · rw [agree (offset + index) (by omega) (by omega)]
  · simp [inside]

/-- A word is determined by its fields of one width. -/
theorem eq_of_field_eq {width count word other : Nat} (positive : 0 < width)
    (wordBound : word < 2 ^ (width * count)) (otherBound : other < 2 ^ (width * count))
    (agree : ∀ index < count,
      field (width * index) width word = field (width * index) width other) :
    word = other := by
  apply Nat.eq_of_testBit_eq
  intro bit
  by_cases inside : bit < width * count
  · have agreed := congrArg (Nat.testBit · (bit % width))
      (agree (bit / width) (Nat.div_lt_of_lt_mul inside))
    simpa [Nat.mod_lt bit positive, Nat.div_add_mod] using agreed
  · have beyond : 2 ^ (width * count) ≤ 2 ^ bit :=
      Nat.pow_le_pow_right (by decide) (Nat.not_lt.mp inside)
    rw [Nat.testBit_lt_two_pow (Nat.lt_of_lt_of_le wordBound beyond),
      Nat.testBit_lt_two_pow (Nat.lt_of_lt_of_le otherBound beyond)]

/-- A word is small exactly when its fields from an index on are zero. -/
theorem lt_two_pow_iff_field_eq_zero {width count word : Nat} (positive : 0 < width)
    (bound : word < 2 ^ (width * count)) (first : Nat) :
    word < 2 ^ (width * first) ↔
      ∀ index < count, first ≤ index → field (width * index) width word = 0 := by
  constructor
  · intro small index _ beyond
    have below : word < 2 ^ (width * index) :=
      Nat.lt_of_lt_of_le small
        (Nat.pow_le_pow_right (by decide) (Nat.mul_le_mul_left width beyond))
    rw [field, Nat.div_eq_of_lt below, Nat.zero_mod]
  · intro zero
    have cut : word = word % 2 ^ (width * first) := by
      refine eq_of_field_eq positive bound
        (Nat.lt_of_le_of_lt (Nat.mod_le _ _) bound) ?_
      intro index inside
      by_cases below : index < first
      · apply field_congr
        intro bit _ bitBelow
        have bitBound : bit < width * first :=
          Nat.lt_of_lt_of_le bitBelow (Nat.mul_le_mul_left width below)
        simp [Nat.testBit_mod_two_pow, bitBound]
      · have beyond := Nat.not_lt.mp below
        have small : word % 2 ^ (width * first) < 2 ^ (width * index) :=
          Nat.lt_of_lt_of_le (Nat.mod_lt _ (Nat.two_pow_pos _))
            (Nat.pow_le_pow_right (by decide) (Nat.mul_le_mul_left width beyond))
        rw [zero index inside beyond, field, Nat.div_eq_of_lt small, Nat.zero_mod]
    rw [cut]
    exact Nat.mod_lt _ (Nat.two_pow_pos _)

/-! ## Assembling words -/

/-- Values with their widths, least significant first. -/
abbrev Fields := List (Nat × Nat)

/-- Every value fits into its width. -/
def Fits (fields : Fields) : Prop := ∀ entry ∈ fields, entry.2 < 2 ^ entry.1

@[simp] theorem fits_nil : Fits [] := by simp [Fits]

@[simp] theorem fits_cons {entry : Nat × Nat} {rest : Fields} :
    Fits (entry :: rest) ↔ entry.2 < 2 ^ entry.1 ∧ Fits rest := by
  simp [Fits]

/-- The word with the given fields. -/
def pack : Fields → Nat
  | [] => 0
  | (width, value) :: rest => value + 2 ^ width * pack rest

/-- The fields of a word, in the given widths. -/
def unpack : List Nat → Nat → List Nat
  | [], _ => []
  | width :: rest, word => word % 2 ^ width :: unpack rest (word / 2 ^ width)

/-- Fields of the given widths that lie one after the other from a bit on. -/
def fieldsFrom : Nat → List Nat → Nat → List Nat
  | _, [], _ => []
  | start, width :: rest, word =>
      field start width word :: fieldsFrom (start + width) rest word

theorem unpack_div (start : Nat) (widths : List Nat) (word : Nat) :
    unpack widths (word / 2 ^ start) = fieldsFrom start widths word := by
  induction widths generalizing start with
  | nil => rfl
  | cons width rest ih =>
      rw [unpack, fieldsFrom, Nat.div_div_eq_div_mul, ← Nat.pow_add, ih, field]

theorem unpack_eq_fieldsFrom (widths : List Nat) (word : Nat) :
    unpack widths word = fieldsFrom 0 widths word := by
  rw [← unpack_div, Nat.pow_zero, Nat.div_one]

theorem pack_lt {fields : Fields} (fits : Fits fields) :
    pack fields < 2 ^ (fields.map Prod.fst).sum := by
  induction fields with
  | nil => simp [pack]
  | cons entry rest ih =>
      obtain ⟨value, restFits⟩ := fits_cons.mp fits
      have restBound := ih restFits
      rw [pack, List.map_cons, List.sum_cons, Nat.pow_add]
      calc entry.2 + 2 ^ entry.1 * pack rest
          < 2 ^ entry.1 + 2 ^ entry.1 * pack rest := by omega
        _ = 2 ^ entry.1 * (pack rest + 1) := by
            rw [Nat.mul_add_one, Nat.add_comm]
        _ ≤ 2 ^ entry.1 * 2 ^ (rest.map Prod.fst).sum :=
            Nat.mul_le_mul_left _ restBound

theorem unpack_pack {fields : Fields} (fits : Fits fields) :
    unpack (fields.map Prod.fst) (pack fields) = fields.map Prod.snd := by
  induction fields with
  | nil => rfl
  | cons entry rest ih =>
      obtain ⟨value, restFits⟩ := fits_cons.mp fits
      rw [List.map_cons, List.map_cons, unpack, pack, Nat.add_mul_mod_self_left,
        Nat.mod_eq_of_lt value, Nat.add_mul_div_left _ _ (Nat.two_pow_pos entry.1),
        Nat.div_eq_of_lt value, Nat.zero_add, ih restFits]

theorem pack_unpack {widths : List Nat} {word : Nat} (bound : word < 2 ^ widths.sum) :
    pack (widths.zip (unpack widths word)) = word := by
  induction widths generalizing word with
  | nil =>
      rw [List.sum_nil, Nat.pow_zero] at bound
      simp [pack, Nat.lt_one_iff.mp bound]
  | cons width rest ih =>
      rw [List.sum_cons, Nat.pow_add] at bound
      rw [unpack, List.zip_cons_cons, pack, ih (Nat.div_lt_of_lt_mul bound)]
      exact Nat.mod_add_div word (2 ^ width)

/-- A word is assembled from some fields exactly when it reads as them. -/
theorem eq_pack_iff {fields : Fields} {word : Nat} (fits : Fits fields)
    (bound : word < 2 ^ (fields.map Prod.fst).sum) :
    word = pack fields ↔ unpack (fields.map Prod.fst) word = fields.map Prod.snd := by
  constructor
  · rintro rfl
    exact unpack_pack fits
  · intro reads
    have zipped : (fields.map Prod.fst).zip (fields.map Prod.snd) = fields :=
      (List.zip_of_prod rfl rfl).symm
    rw [← pack_unpack bound, reads, zipped]

/-! ## One-hot fields -/

/-- At most one of the `width` bits from `offset` on is set. -/
def AtMostOneBit (offset width word : Nat) : Prop :=
  ∀ first < width, ∀ second < width, word.testBit (offset + first) = true →
    word.testBit (offset + second) = true → first = second

instance (offset width word : Nat) : Decidable (AtMostOneBit offset width word) :=
  inferInstanceAs (Decidable (∀ first < width, ∀ second < width, _ → _ → _))

/-- At most one bit of a field is set exactly when its value is zero or a power of
two. -/
theorem atMostOneBit_iff {offset width word : Nat} :
    AtMostOneBit offset width word ↔
      field offset width word = 0 ∨
        ∃ index < width, field offset width word = 2 ^ index := by
  constructor
  · intro atMostOne
    by_cases zero : field offset width word = 0
    · exact Or.inl zero
    · right
      obtain ⟨index, bit⟩ := Nat.exists_testBit_of_ne_zero zero
      rw [testBit_field, Bool.and_eq_true, decide_eq_true_eq] at bit
      refine ⟨index, bit.1, Nat.eq_of_testBit_eq fun other => ?_⟩
      rw [testBit_field, Nat.testBit_two_pow]
      by_cases same : index = other
      · subst same
        simp [bit.1, bit.2]
      · by_contra set
        simp only [same, decide_false, Bool.not_eq_false, Bool.and_eq_true,
          decide_eq_true_eq] at set
        exact same (atMostOne index bit.1 other set.1 bit.2 set.2)
  · rintro value first firstInside second secondInside firstSet secondSet
    have firstBit : (field offset width word).testBit first = true := by
      rw [testBit_field, firstSet, decide_eq_true firstInside]
      rfl
    have secondBit : (field offset width word).testBit second = true := by
      rw [testBit_field, secondSet, decide_eq_true secondInside]
      rfl
    rcases value with zero | ⟨index, -, power⟩
    · rw [zero, Nat.zero_testBit] at firstBit
      cases firstBit
    · rw [power, Nat.testBit_two_pow, decide_eq_true_eq] at firstBit secondBit
      rw [← firstBit, ← secondBit]

end BitField
