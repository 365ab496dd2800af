import CairoVM.Felt.Limbs
import CairoVM.Parser.Outcome
import Mathlib.Data.List.TakeWhile

/-!
# What becomes of the program words

A word of the program is written as a hexadecimal number.  The parser takes it through
a 64-bit integer, and reads as many words as the saturated size of the array tells.
So the words of a document that the parser accepts survive exactly when there are at most
`0xFFFFFF` of them and each fits into 64 bits.
-/

namespace CairoVM

namespace Parser

/-! ## Hexadecimal numbers -/

/-- The value of a hexadecimal digit. -/
def hexDigitValue (digit : Char) : Option Nat :=
  if '0' ≤ digit ∧ digit ≤ '9' then some (digit.toNat - '0'.toNat)
  else if 'a' ≤ digit ∧ digit ≤ 'f' then some (digit.toNat - 'a'.toNat + 10)
  else if 'A' ≤ digit ∧ digit ≤ 'F' then some (digit.toNat - 'A'.toNat + 10)
  else none

/-- The value of a sequence of hexadecimal digits after the digits that make up
`value`. -/
def hexValueFrom (value : Nat) : List Char → Option Nat
  | [] => some value
  | digit :: digits =>
      match hexDigitValue digit with
      | some digitValue => hexValueFrom (16 * value + digitValue) digits
      | none => none

/-- The integer that a program word denotes. -/
def hexLiteral : CString → Option Nat
  | '0' :: 'x' :: digit :: digits => hexValueFrom 0 (digit :: digits)
  | _ => none

/-- The documented behaviour of `sscanf`: a number that fits into 64 bits is stored
exactly. -/
def Platform.StoresExact (platform : Platform) : Prop :=
  ∀ text value, hexLiteral text = some value → value < 2 ^ 64 →
    platform.sscanf text = some (UInt64.ofNat value)

/-- A compiled program in a file: a document that gives an array of words for `data`, and
the field elements that the words denote.  Nothing is known of its other keys. -/
structure CompiledProgram (platform : Platform) where
  filename : CString
  root : Element
  words : List CString
  values : List Nat
  loaded : platform.loadAndParse filename = .ok root
  data : root.atKey "data".toList = .ok (.array (words.map .string))
  denotes : words.map hexLiteral = values.map some
  inField : ∀ value ∈ values, value < cairoPrime

theorem hexDigitValue_isSome {digits : List Char} {value result : Nat}
    (read : hexValueFrom value digits = some result) :
    ∀ digit ∈ digits, (hexDigitValue digit).isSome = true := by
  induction digits generalizing value with
  | nil => simp
  | cons digit digits ih =>
      rw [hexValueFrom] at read
      cases digitRead : hexDigitValue digit with
      | none => simp [digitRead] at read
      | some digitValue =>
          rw [digitRead] at read
          intro other member
          rcases List.mem_cons.mp member with rfl | member
          · simp [digitRead]
          · exact ih read other member

/-- A hexadecimal number has no null byte. -/
theorem cString_of_hexLiteral {text : CString} {value : Nat}
    (literal : hexLiteral text = some value) : cString text = text := by
  have noNull : ∀ character ∈ text, character ≠ Char.ofNat 0 := by
    intro character member
    unfold hexLiteral at literal
    split at literal
    · rename_i digit digits
      rw [List.mem_cons, List.mem_cons] at member
      rcases member with rfl | rfl | member
      · decide
      · decide
      · rintro rfl
        have digitRead := hexDigitValue_isSome literal _ member
        exact absurd digitRead (by decide)
    · cases literal
  rw [cString, List.takeWhile_eq_self_iff]
  simpa using noNull

/-- The words and the integers they denote, index by index. -/
theorem getElem?_denotes {words : List CString} {values : List Nat}
    (denotes : words.map hexLiteral = values.map some) (index : Nat) :
    words[index]?.map hexLiteral = values[index]?.map some := by
  rw [← List.getElem?_map, denotes, List.getElem?_map]

theorem exists_value_of_word {words : List CString} {values : List Nat}
    (denotes : words.map hexLiteral = values.map some) {index : Nat} {word : CString}
    (found : words[index]? = some word) :
    ∃ value, values[index]? = some value ∧ hexLiteral word = some value := by
  have same := getElem?_denotes denotes index
  rw [found] at same
  obtain ⟨value, held, literal⟩ := Option.map_eq_some_iff.mp same.symm
  exact ⟨value, held, literal.symm⟩

theorem exists_word_of_value {words : List CString} {values : List Nat}
    (denotes : words.map hexLiteral = values.map some) {index value : Nat}
    (held : values[index]? = some value) :
    ∃ word, words[index]? = some word ∧ hexLiteral word = some value := by
  have same := getElem?_denotes denotes index
  rw [held] at same
  exact Option.map_eq_some_iff.mp same

/-! ## The words that are read -/

section

variable {platform : Platform} {Felt : Type} [Stark252 Felt]

theorem strings_take_iff {words texts : List CString} :
    Strings (words.map .string) texts ↔ texts = words.take 0xFFFFFF := by
  rw [Strings, ← List.map_take,
    (List.map_injective_iff.mpr fun _ _ => Element.string.inj).eq_iff, eq_comm]

/-- The felt that a word becomes. -/
def wordFelt (platform : Platform) (Felt : Type) [Stark252 Felt] (word : CString) : FeltT :=
  feltFrom Felt (hexStringToUint64 platform word)

/-- The array of a compiled program is filled as far as its size tells, if it was
allocated. -/
theorem dataRead_iff {words : List CString} {values : List Nat}
    (denotes : words.map hexLiteral = values.map some) {data : Option (List FeltT)} :
    DataRead platform Felt (words.map .string) data ↔
      ¬Allocated platform .data 32 (words.map .string) ∧ data = none ∨
      Allocated platform .data 32 (words.map .string) ∧
        data = some ((words.take 0xFFFFFF).map (wordFelt platform Felt)) := by
  have read : (words.take 0xFFFFFF).map
      (fun text => feltFrom Felt (hexStringToUint64 platform (cString text))) =
      (words.take 0xFFFFFF).map (wordFelt platform Felt) := by
    apply List.map_congr_left
    intro word member
    obtain ⟨index, found⟩ := List.mem_iff_getElem?.mp (List.mem_of_mem_take member)
    obtain ⟨value, -, literal⟩ := exists_value_of_word denotes found
    rw [cString_of_hexLiteral literal, wordFelt]
  rw [← read]
  constructor
  · rintro (failed | ⟨allocated, strings⟩)
    · exact .inl ⟨failed, rfl⟩
    · rw [strings_take_iff.mp strings]
      exact .inr ⟨allocated, rfl⟩
  · rintro (⟨failed, rfl⟩ | ⟨allocated, rfl⟩)
    · exact .nothing failed
    · exact .words allocated (strings_take_iff.mpr rfl)

/-! ## Survival of the words -/

/-- Every word of the parsed program is the canonical felt of the integer that the
file gives for it. -/
def WordsSurvive (Felt : Type) [Stark252 Felt] (programSize : Nat)
    (compiled : CompiledProgram platform) : Prop :=
  ∃ program, parseJsonFilename platform Felt programSize compiled.filename =
      .ok program ∧
    ∀ index value, compiled.values[index]? = some value →
      program.word index = some (limbsOf value)

/-- The documents that the parser accepts and whose words it can hold: the program and the
data are allocated, the other two keys have values of the right shape, and there are no
more words than the largest array size, each of 64 bits. -/
structure WithinLimits (programSize : Nat) (compiled : CompiledProgram platform) :
    Prop where
  program : platform.malloc .program programSize = true
  data : compiled.words = [] ∨ Allocated platform .data 32 (compiled.words.map .string)
  attributes : ∃ elements,
    compiled.root.atKey "attributes".toList = .ok (.array elements) ∧
      ¬BadArray platform .attributes 8 elements
  compilerVersion : ∃ text,
    compiled.root.atKey "compiler_version".toList = .ok (.string text)
  few : compiled.words.length ≤ 0xFFFFFF
  small : ∀ value ∈ compiled.values, value < 2 ^ 64

theorem CompiledProgram.length_values (compiled : CompiledProgram platform) :
    compiled.values.length = compiled.words.length := by
  have lengths := congrArg List.length compiled.denotes
  rw [List.length_map, List.length_map] at lengths
  exact lengths.symm

variable [LawfulStark252 Felt] {programSize : Nat}

theorem feltFrom_eq (value : UInt64) : feltFrom Felt value = limbsOf value.toNat :=
  LawfulStark252.representative_fromU64 value

/-- A word of 64 bits is exact. -/
theorem wordFelt_eq (exact : platform.StoresExact) {word : CString} {value : Nat}
    (literal : hexLiteral word = some value) (small : value < 2 ^ 64) :
    wordFelt platform Felt word = limbsOf value := by
  have number : hexStringToUint64 platform word = UInt64.ofNat value := by
    rw [hexStringToUint64, exact word value literal small]
    rfl
  rw [wordFelt, number, feltFrom_eq, UInt64.toNat_ofNat_of_lt' small]

/-- Whatever the platform does with a number that is too large, a 64-bit integer is not
that number. -/
theorem lt_of_wordFelt_eq {word : CString} {value : Nat} (inField : value < cairoPrime)
    (same : wordFelt platform Felt word = limbsOf value) : value < 2 ^ 64 := by
  rw [wordFelt, feltFrom_eq] at same
  have bound := UInt64.toNat_lt (hexStringToUint64 platform word)
  have primeBound : cairoPrime < 2 ^ 256 := by decide
  have equal : (hexStringToUint64 platform word).toNat = value :=
    limbsOf_injective (by omega) (by omega) same
  omega

/-- Within the limits, the 64-bit integer in the middle is exact. -/
theorem wordsSurvive_of_withinLimits (exact : platform.StoresExact)
    {compiled : CompiledProgram platform} (within : WithinLimits programSize compiled) :
    WordsSurvive Felt programSize compiled := by
  obtain ⟨elements, attributesFound, fine⟩ := within.attributes
  obtain ⟨attributes, attributesRead⟩ := exists_attributesRead_iff.mpr fine
  obtain ⟨version, versionFound⟩ := within.compilerVersion
  obtain ⟨data, dataRead, words⟩ : ∃ data : Option (List FeltT),
      DataRead platform Felt (compiled.words.map .string) data ∧
      ∀ index : Nat, data.bind (·[index]?) =
        (compiled.words.map (wordFelt platform Felt))[index]? := by
    have all : compiled.words.take 0xFFFFFF = compiled.words :=
      List.take_of_length_le within.few
    simp only [dataRead_iff compiled.denotes, all]
    by_cases allocated : Allocated platform .data 32 (compiled.words.map .string)
    · exact ⟨_, .inr ⟨allocated, rfl⟩, fun _ => rfl⟩
    · refine ⟨_, .inl ⟨allocated, rfl⟩, fun index => ?_⟩
      rw [within.data.resolve_right allocated]
      rfl
  let copy : Option CString :=
    if platform.malloc .compilerVersion ((cString version).length + 1) then
      some (cString version)
    else none
  have represents : Represents platform Felt compiled.root ⟨attributes, copy, data⟩ :=
    ⟨⟨elements, attributesFound, attributesRead⟩, ⟨version, versionFound, rfl⟩,
      ⟨_, compiled.data, dataRead⟩⟩
  refine ⟨_, parseJsonFilename_ok_iff.mpr
    ⟨within.program, compiled.root, compiled.loaded, represents⟩, ?_⟩
  intro index value held
  obtain ⟨word, found, literal⟩ := exists_word_of_value compiled.denotes held
  have small : value < 2 ^ 64 := within.small value (List.mem_of_getElem? held)
  rw [Program.word, words, List.getElem?_map, found, Option.map_some,
    wordFelt_eq exact literal small]

theorem withinLimits_of_wordsSurvive {compiled : CompiledProgram platform}
    (survive : WordsSurvive Felt programSize compiled) :
    WithinLimits programSize compiled := by
  obtain ⟨program, parsed, canonical⟩ := survive
  obtain ⟨programFits, root, loaded, attributes, version, elements, found, read⟩ :=
    parseJsonFilename_ok_iff.mp parsed
  obtain rfl := Except.ok.inj (compiled.loaded.symm.trans loaded)
  obtain rfl := Element.array.inj (Except.ok.inj (compiled.data.symm.trans found))
  rw [dataRead_iff compiled.denotes] at read
  obtain ⟨elements, attributesFound, attributesRead⟩ := attributes
  obtain ⟨text, versionFound, -⟩ := version
  have lengths := compiled.length_values
  -- An index of a word is one of a value, and the parsed program has an entry there.
  have present : ∀ index, index < compiled.words.length → program.word index ≠ none := by
    intro index inside lost
    rw [← lengths] at inside
    rw [canonical index _ (List.getElem?_eq_getElem inside)] at lost
    cases lost
  refine {
    program := programFits
    attributes := ⟨elements, attributesFound,
      exists_attributesRead_iff.mp ⟨_, attributesRead⟩⟩
    compilerVersion := ⟨text, versionFound⟩
    data := ?_, few := ?_, small := ?_ }
  · refine or_iff_not_imp_right.mpr fun failed => ?_
    have nothing : program.data = none :=
      (read.resolve_right fun allocated => failed allocated.1).2
    by_contra filled
    refine present 0 (List.length_pos_iff.mpr filled) ?_
    rw [Program.word, nothing, Option.bind_none]
  · by_contra tooMany
    refine present 0xFFFFFF (Nat.lt_of_not_le tooMany) ?_
    rcases read with ⟨-, nothing⟩ | ⟨-, filled⟩
    · rw [Program.word, nothing, Option.bind_none]
    · rw [Program.word, filled, Option.bind_some, List.getElem?_eq_none_iff,
        List.length_map]
      exact List.length_take_le _ _
  · intro value member
    obtain ⟨index, held⟩ := List.mem_iff_getElem?.mp member
    have entry := canonical index value held
    rcases read with ⟨-, nothing⟩ | ⟨-, filled⟩
    · rw [Program.word, nothing] at entry
      cases entry
    · rw [Program.word, filled, Option.bind_some, List.getElem?_map] at entry
      obtain ⟨word, -, same⟩ := Option.map_eq_some_iff.mp entry
      exact lt_of_wordFelt_eq (compiled.inField value member) same

/-- The words of a compiled program survive parsing exactly when the parser accepts the
document, there are at most `0xFFFFFF` of them and each fits into 64 bits.  Two programs
within these limits that differ in a word are parsed to programs that differ in it. -/
theorem wordsSurvive_iff (Felt : Type) [Stark252 Felt] [LawfulStark252 Felt]
    (programSize : Nat) (exact : platform.StoresExact)
    (compiled : CompiledProgram platform) :
    (WordsSurvive Felt programSize compiled ↔ WithinLimits programSize compiled) ∧
    ∀ other : CompiledProgram platform, WithinLimits programSize compiled →
      WithinLimits programSize other → ∀ program otherProgram,
        parseJsonFilename platform Felt programSize compiled.filename = .ok program →
        parseJsonFilename platform Felt programSize other.filename = .ok otherProgram →
        ∀ index value otherValue, compiled.values[index]? = some value →
          other.values[index]? = some otherValue → value ≠ otherValue →
          program.word index ≠ otherProgram.word index := by
  refine ⟨⟨withinLimits_of_wordsSurvive, wordsSurvive_of_withinLimits exact⟩, ?_⟩
  intro other within otherWithin program otherProgram parsed otherParsed index value
    otherValue held otherHeld differ same
  have survive : WordsSurvive Felt programSize compiled :=
    wordsSurvive_of_withinLimits exact within
  have otherSurvive : WordsSurvive Felt programSize other :=
    wordsSurvive_of_withinLimits exact otherWithin
  obtain ⟨survivor, survivorParsed, canonical⟩ := survive
  obtain ⟨otherSurvivor, otherSurvivorParsed, otherCanonical⟩ := otherSurvive
  obtain rfl := Except.ok.inj (survivorParsed.symm.trans parsed)
  obtain rfl := Except.ok.inj (otherSurvivorParsed.symm.trans otherParsed)
  rw [canonical index value held, otherCanonical index otherValue otherHeld] at same
  have small := within.small value (List.mem_of_getElem? held)
  have otherSmall := otherWithin.small otherValue (List.mem_of_getElem? otherHeld)
  exact differ (limbsOf_injective (by omega) (by omega) (Option.some.inj same))

/-- A platform without memory limits whose `sscanf` stores the largest number in place of
one that is too large, and on which every file has the given contents. -/
def saturatingPlatform (root : Element) : Platform where
  malloc _ _ := true
  sscanf text := (hexLiteral text).map fun value =>
    UInt64.ofNat (min value (2 ^ 64 - 1))
  loadAndParse _ := .ok root

theorem storesExact_saturatingPlatform (root : Element) :
    (saturatingPlatform root).StoresExact := by
  intro text value literal small
  have saturated : min value (2 ^ 64 - 1) = value := by omega
  simp only [saturatingPlatform, literal, Option.map_some, saturated]

/-- A file with the given words, without attributes. -/
def programFile (words : List CString) : Element :=
  .object [("attributes".toList, .array []),
    ("compiler_version".toList, .string "0.11.0.2".toList),
    ("data".toList, .array (words.map .string))]

/-- The compiled program of such a file. -/
def compiledProgramOf (words : List CString) (values : List Nat)
    (denotes : words.map hexLiteral = values.map some)
    (inField : ∀ value ∈ values, value < cairoPrime) :
    CompiledProgram (saturatingPlatform (programFile words)) where
  filename := "program.json".toList
  root := programFile words
  words := words
  values := values
  loaded := rfl
  data := rfl
  denotes := denotes
  inField := inField

/-- An instruction and its immediate value survive. -/
theorem wordsSurvive_small_words :
    WordsSurvive CanonicalFelt 8
      (compiledProgramOf ["0x480680017fff8000".toList, "0x1".toList]
        [0x480680017fff8000, 1] (by decide) (by decide)) :=
  (wordsSurvive_iff CanonicalFelt 8 (storesExact_saturatingPlatform _) _).1.mpr {
    program := rfl
    data := .inr rfl
    attributes := ⟨[], rfl, fun bad => bad.2 [] rfl⟩
    compilerVersion := ⟨_, rfl⟩
    few := by decide
    small := by decide }

/-- The immediate value `-1`. -/
def minusOneWord : CString :=
  "0x800000000000011000000000000000000000000000000000000000000000000".toList

/-- The immediate value `-1` does not survive, on a platform as documented and in a document
that the parser accepts. -/
theorem wordsSurvive_fails_at_minus_one :
    (saturatingPlatform (programFile [minusOneWord])).StoresExact ∧
    (∃ program, parseJsonFilename (saturatingPlatform (programFile [minusOneWord]))
      CanonicalFelt 8 "program.json".toList = .ok program) ∧
    ¬WordsSurvive CanonicalFelt 8
      (compiledProgramOf [minusOneWord] [cairoPrime - 1] (by decide) (by decide)) := by
  refine ⟨storesExact_saturatingPlatform _, ⟨_, rfl⟩, fun survive => ?_⟩
  exact absurd ((withinLimits_of_wordsSurvive survive).small _ List.mem_cons_self)
    (by decide)

end

end Parser

end CairoVM
