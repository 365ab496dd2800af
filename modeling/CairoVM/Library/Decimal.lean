/-!
# Decimal text

Natural numbers and integers as decimal text, and readers that take such text off the
front of a longer one.  What was written is read back, as long as no digit follows it.
-/

namespace Decimal

/-- The text of a natural number. -/
def natText (value : Nat) : List Char := Nat.toDigits 10 value

/-- The text of an integer. -/
def intText (value : Int) : List Char :=
  if value < 0 then '-' :: natText value.natAbs else natText value.natAbs

/-- Read a natural number, and return the text after it. -/
def readNat (text : List Char) : Option (Nat × List Char) :=
  match text.takeWhile Char.isDigit with
  | [] => none
  | digits => some (Nat.ofDigitChars 10 digits 0, text.dropWhile Char.isDigit)

/-- Read an integer, and return the text after it. -/
def readInt : List Char → Option (Int × List Char)
  | '-' :: text => (readNat text).map fun (value, rest) => (-value, rest)
  | text => (readNat text).map fun (value, rest) => (value, rest)

/-- Take a fixed text off the front. -/
def readLiteral : List Char → List Char → Option (List Char)
  | [], text => some text
  | _ :: _, [] => none
  | expected :: literal, found :: text =>
      if expected = found then readLiteral literal text else none

/-- No digit is at the front of the text. -/
def NoDigitAhead (text : List Char) : Prop :=
  ∀ character ∈ text.head?, character.isDigit = false

@[simp] theorem noDigitAhead_nil : NoDigitAhead [] := by simp [NoDigitAhead]

@[simp] theorem noDigitAhead_cons {character : Char} {text : List Char} :
    NoDigitAhead (character :: text) ↔ character.isDigit = false := by
  simp [NoDigitAhead]

theorem isDigit_of_mem_natText {value : Nat} {character : Char}
    (member : character ∈ natText value) : character.isDigit = true :=
  Nat.isDigit_of_mem_toDigits (by decide) (by decide) member

/-- The text of a natural number does not start with a minus sign. -/
theorem natText_append_ne_minus (value : Nat) (rest text : List Char) :
    natText value ++ rest ≠ '-' :: text := by
  intro same
  rcases digits : natText value with _ | ⟨first, others⟩
  · exact absurd digits Nat.toDigits_ne_nil
  · rw [digits, List.cons_append, List.cons.injEq] at same
    have member : first ∈ natText value := by simp [digits]
    have isDigit := isDigit_of_mem_natText member
    rw [same.1] at isDigit
    exact absurd isDigit (by decide)

/-- The digits at the front of a text are taken off as a whole. -/
theorem span_natText_append (value : Nat) {rest : List Char} (ahead : NoDigitAhead rest) :
    (natText value ++ rest).takeWhile Char.isDigit = natText value ∧
      (natText value ++ rest).dropWhile Char.isDigit = rest := by
  have digits : ∀ character ∈ natText value, character.isDigit = true :=
    fun _ member => isDigit_of_mem_natText member
  rw [List.takeWhile_append_of_pos digits, List.dropWhile_append_of_pos digits]
  cases rest with
  | nil => simp
  | cons character rest => simp [noDigitAhead_cons.mp ahead]

@[simp] theorem readNat_natText_append (value : Nat) {rest : List Char}
    (ahead : NoDigitAhead rest) : readNat (natText value ++ rest) = some (value, rest) := by
  obtain ⟨taken, dropped⟩ := span_natText_append value ahead
  rw [readNat, taken, dropped]
  split
  · rename_i empty
    exact absurd empty Nat.toDigits_ne_nil
  · rw [natText, Nat.ofDigitChars_ten_toDigits]

@[simp] theorem readInt_intText_append (value : Int) {rest : List Char}
    (ahead : NoDigitAhead rest) : readInt (intText value ++ rest) = some (value, rest) := by
  unfold intText
  split
  · rename_i negative
    have absolute : -(value.natAbs : Int) = value := by omega
    rw [List.cons_append, readInt, readNat_natText_append _ ahead]
    simp only [Option.map_some, absolute]
  · rename_i nonnegative
    have absolute : (value.natAbs : Int) = value := by omega
    unfold readInt
    split
    · rename_i text startsWithMinus
      exact absurd startsWithMinus (natText_append_ne_minus _ _ _)
    · rw [readNat_natText_append _ ahead]
      simp only [Option.map_some, absolute]

@[simp] theorem readLiteral_append (literal rest : List Char) :
    readLiteral literal (literal ++ rest) = some rest := by
  induction literal with
  | nil => rfl
  | cons character literal ih => simp [readLiteral, ih]

end Decimal
