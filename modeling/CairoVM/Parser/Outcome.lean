import Mathlib.Data.List.Basic
import CairoVM.Library.Failing
import CairoVM.Model.Parser

/-!
# Which files are accepted, and how others fail

The parser reads three keys of the document and nothing else.  Whether it returns, and
what, is told here without its loops: a file is accepted when the three keys have values
of the right shape, and otherwise the first of them that has not decides on the error.
An array whose allocation fails is not looked at.
-/

namespace CairoVM.Parser

open Failing

variable {platform : Platform} {Felt : Type} [Stark252 Felt]

/-! ## Arrays of strings -/

/-- The strings of an array, up to the saturated size. -/
def Strings (elements : List Element) (texts : List CString) : Prop :=
  elements.take 0xFFFFFF = texts.map .string

/-- What a C string keeps of a string. -/
def cString (text : CString) : CString := text.takeWhile (· ≠ Char.ofNat 0)

theorem Strings.length {elements : List Element} {texts : List CString}
    (strings : Strings elements texts) : texts.length = arraySize elements := by
  have lengths := congrArg List.length strings
  rw [List.length_take, List.length_map] at lengths
  rw [← lengths, arraySize, min_comm]

/-- A step that uses its element as a string, and fails otherwise. -/
structure StringStep {Result : Type} (step : Nat → Element → Except ErrorCode Result)
    (image : Nat → CString → Result) : Prop where
  onString : ∀ index text, step index (.string text) = .ok (image index text)
  onOther : ∀ index element, (∀ text, element ≠ .string text) →
    step index element = .error .incorrectType

namespace StringStep

variable {Result : Type} {step : Nat → Element → Except ErrorCode Result}
  {image : Nat → CString → Result}

theorem mapM_cases (isStep : StringStep step image) (elements : List Element)
    (start : Nat) :
    (∃ texts : List CString, elements = texts.map .string ∧
      (elements.zipIdx start).mapM (fun entry => step entry.2 entry.1) =
        .ok ((texts.zipIdx start).map fun entry => image entry.2 entry.1)) ∨
    ((∀ texts : List CString, elements ≠ texts.map .string) ∧
      (elements.zipIdx start).mapM (fun entry => step entry.2 entry.1) =
        .error .incorrectType) := by
  induction elements generalizing start with
  | nil => exact .inl ⟨[], rfl, rfl⟩
  | cons element elements ih =>
      rw [List.zipIdx_cons, List.mapM_cons]
      by_cases isString : ∃ text, element = .string text
      · obtain ⟨text, rfl⟩ := isString
        rw [isStep.onString]
        rcases ih (start + 1) with ⟨texts, rfl, mapped⟩ | ⟨others, failed⟩
        · rw [mapped]
          exact .inl ⟨text :: texts, rfl, rfl⟩
        · rw [failed]
          refine .inr ⟨?_, rfl⟩
          rintro (_ | ⟨first, texts⟩) same
          · cases same
          · exact others texts (List.cons.inj same).2
      · rw [isStep.onOther start element fun text same => isString ⟨text, same⟩]
        refine .inr ⟨?_, rfl⟩
        rintro (_ | ⟨first, texts⟩) same
        · cases same
        · exact isString ⟨first, (List.cons.inj same).1⟩

/-- The iterations of a loop from an index inside the array on. -/
theorem loop_from (step : Nat → Element → Except ErrorCode Result)
    (before rest : List Element) {count : Nat} (inside : count ≤ rest.length) :
    ((List.range' before.length count).mapM fun i =>
        arrayAt (before ++ rest) i >>= step i) =
      ((rest.take count).zipIdx before.length).mapM fun entry => step entry.2 entry.1 := by
  induction count generalizing before rest with
  | zero =>
      rw [List.range'_zero, List.take_zero, List.zipIdx_nil, List.mapM_nil, List.mapM_nil]
  | succ count ih =>
      cases rest with
      | nil => cases inside
      | cons element rest =>
          have found : arrayAt (before ++ element :: rest) before.length = .ok element := by
            simp [arrayAt]
          have later := ih (before ++ [element]) rest (Nat.le_of_succ_le_succ inside)
          rw [List.length_append, List.length_singleton, List.append_assoc,
            List.singleton_append] at later
          rw [List.range'_succ, List.mapM_cons, later, found, List.take_succ_cons,
            List.zipIdx_cons, List.mapM_cons]
          rfl

/-- The loops of the parser stay inside their array. -/
theorem loop_eq (step : Nat → Element → Except ErrorCode Result) (elements : List Element) :
    ((List.range (arraySize elements)).mapM fun i => arrayAt elements i >>= step i) =
      (elements.take 0xFFFFFF).zipIdx.mapM fun entry => step entry.2 entry.1 := by
  have inside : arraySize elements ≤ elements.length := Nat.min_le_left _ _
  have front : elements.take (arraySize elements) = elements.take 0xFFFFFF := by
    rw [arraySize, min_comm, ← List.take_eq_take_min]
  rw [List.range_eq_range', ← front]
  exact loop_from step [] elements inside

theorem loop_ok_iff (isStep : StringStep step image) (elements : List Element)
    (results : List Result) :
    ((List.range (arraySize elements)).mapM fun i => arrayAt elements i >>= step i) =
        .ok results ↔
      ∃ texts, Strings elements texts ∧ results = texts.mapIdx image := by
  simp only [loop_eq, List.mapIdx_eq_zipIdx_map]
  rcases isStep.mapM_cases (elements.take 0xFFFFFF) 0 with
    ⟨texts, strings, mapped⟩ | ⟨others, failed⟩
  · rw [mapped, Except.ok.injEq]
    constructor
    · rintro rfl
      exact ⟨texts, strings, rfl⟩
    · rintro ⟨same, sameStrings, rfl⟩
      have equal : texts.map Element.string = same.map Element.string :=
        strings.symm.trans sameStrings
      rw [List.map_injective_iff.mpr (fun _ _ => Element.string.inj) equal]
  · rw [failed]
    constructor
    · intro impossible
      cases impossible
    · rintro ⟨texts, strings, -⟩
      exact absurd strings (others texts)

theorem loop_error_iff (isStep : StringStep step image) (elements : List Element)
    (code : ErrorCode) :
    ((List.range (arraySize elements)).mapM fun i => arrayAt elements i >>= step i) =
        .error code ↔
      code = .incorrectType ∧ ∀ texts, ¬Strings elements texts := by
  rw [loop_eq]
  rcases isStep.mapM_cases (elements.take 0xFFFFFF) 0 with
    ⟨texts, strings, mapped⟩ | ⟨others, failed⟩
  · rw [mapped]
    constructor
    · intro impossible
      cases impossible
    · rintro ⟨-, none⟩
      exact absurd strings (none texts)
  · rw [failed, Except.error.injEq, eq_comm]
    exact (and_iff_left others).symm

/-- A loop that fills an array, if the array was allocated. -/
theorem filled_ok_iff (isStep : StringStep step image) (allocated : Bool)
    (elements : List Element) {Outcome : Type} (missing : Outcome)
    (finish : List Result → Outcome) (outcome : Outcome) :
    (if allocated = false then .ok missing
      else do
        let results ← (List.range (arraySize elements)).mapM fun i =>
          arrayAt elements i >>= step i
        pure (finish results)) = Except.ok (ε := ErrorCode) outcome ↔
      allocated = false ∧ outcome = missing ∨
      allocated = true ∧
        ∃ texts, Strings elements texts ∧ outcome = finish (texts.mapIdx image) := by
  cases allocated with
  | false =>
      rw [if_pos rfl, Except.ok.injEq, eq_comm]
      simp
  | true =>
      rw [if_neg (by simp), bind_eq_ok_iff]
      simp only [isStep.loop_ok_iff]
      constructor
      · rintro ⟨_, ⟨texts, strings, rfl⟩, same⟩
        exact .inr ⟨trivial, texts, strings, (Except.ok.inj same).symm⟩
      · rintro (⟨⟨⟩, -⟩ | ⟨-, texts, strings, rfl⟩)
        exact ⟨_, ⟨texts, strings, rfl⟩, rfl⟩

theorem filled_error_iff (isStep : StringStep step image) (allocated : Bool)
    (elements : List Element) {Outcome : Type} (missing : Outcome)
    (finish : List Result → Outcome) (code : ErrorCode) :
    (if allocated = false then .ok missing
      else do
        let results ← (List.range (arraySize elements)).mapM fun i =>
          arrayAt elements i >>= step i
        pure (finish results)) = Except.error code ↔
      code = .incorrectType ∧ allocated = true ∧ ∀ texts, ¬Strings elements texts := by
  cases allocated with
  | false => simp
  | true =>
      rw [if_neg (by simp), bind_eq_error_iff]
      simp only [isStep.loop_error_iff]
      constructor
      · rintro (⟨rfl, others⟩ | ⟨_, -, ⟨⟩⟩)
        exact ⟨rfl, trivial, others⟩
      · rintro ⟨rfl, -, others⟩
        exact .inl ⟨rfl, others⟩

end StringStep

/-! ## The two loops -/

/-- The C string that an attribute becomes, unless its allocation fails. -/
def attributeCopy (platform : Platform) (index : Nat) (text : CString) : Option CString :=
  if platform.malloc (.attribute index) (text.length + 1) then some (cString text) else none

/-- The array of a key is allocated, with slots of so many bytes. -/
def Allocated (platform : Platform) (call : Allocation) (slot : Nat)
    (elements : List Element) : Prop :=
  platform.malloc call (arraySize elements * slot) = true

/-- What `parse_attributes` makes of an array. -/
inductive AttributesRead (platform : Platform) (elements : List Element) :
    StringArray → Prop
  | nothing (empty : elements = [] ∨ ¬Allocated platform .attributes 8 elements) :
      AttributesRead platform elements ⟨0, none⟩
  | copied {texts : List CString} (filled : elements ≠ [])
      (allocated : Allocated platform .attributes 8 elements)
      (strings : Strings elements texts) :
      AttributesRead platform elements
        ⟨texts.length, some (texts.mapIdx (attributeCopy platform))⟩

/-- What `parse_data` makes of an array. -/
inductive DataRead (platform : Platform) (Felt : Type) [Stark252 Felt]
    (elements : List Element) : Option (List FeltT) → Prop
  | nothing (failed : ¬Allocated platform .data 32 elements) :
      DataRead platform Felt elements none
  | words {texts : List CString} (allocated : Allocated platform .data 32 elements)
      (strings : Strings elements texts) :
      DataRead platform Felt elements (some (texts.map fun text =>
        feltFrom Felt (hexStringToUint64 platform (cString text))))

/-- An array is allocated, but does not hold strings only. -/
def BadArray (platform : Platform) (call : Allocation) (slot : Nat)
    (elements : List Element) : Prop :=
  Allocated platform call slot elements ∧ ∀ texts, ¬Strings elements texts

/-- The step of `parse_attributes`. -/
theorem stringStep_attributes (platform : Platform) :
    StringStep
      (fun i elem => do
        let stringLength ← elem.getStringLength
        if platform.malloc (.attribute i) (stringLength + 1) = false then
          pure none
        else
          let source ← elem.getCStr
          pure (some source))
      (attributeCopy platform) where
  onString index text := by
    unfold attributeCopy
    cases allocated : platform.malloc (.attribute index) (text.length + 1) <;>
      simp [Element.getStringLength, Element.getCStr, cString, allocated, bind, Except.bind,
        pure, Except.pure]
  onOther index element notString := by
    cases element with
    | string text => exact absurd rfl (notString text)
    | array elements => rfl
    | object fields => rfl
    | other => rfl

/-- The step of `parse_data`. -/
theorem stringStep_data (platform : Platform) (Felt : Type) [Stark252 Felt] :
    StringStep
      (fun _ elem => do
        let hex ← elem.getCStr
        let num := hexStringToUint64 platform hex
        pure (feltFrom Felt num))
      (fun _ text => feltFrom Felt (hexStringToUint64 platform (cString text))) where
  onString index text := rfl
  onOther index element notString := by
    cases element with
    | string text => exact absurd rfl (notString text)
    | array elements => rfl
    | object fields => rfl
    | other => rfl

theorem arraySize_eq_zero_iff {elements : List Element} :
    arraySize elements = 0 ↔ elements = [] := by
  rw [arraySize, ← List.length_eq_zero_iff]
  omega

theorem parseAttributes_ok_iff {elements : List Element} {attributes : StringArray} :
    parseAttributes platform elements = .ok attributes ↔
      AttributesRead platform elements attributes := by
  rw [parseAttributes]
  by_cases empty : arraySize elements = 0
  · rw [if_pos empty, Except.ok.injEq]
    constructor
    · rintro rfl
      exact .nothing (.inl (arraySize_eq_zero_iff.mp empty))
    · rintro (_ | ⟨filled⟩)
      · rfl
      · exact absurd (arraySize_eq_zero_iff.mp empty) filled
  · rw [if_neg empty]
    have filled : elements ≠ [] := mt arraySize_eq_zero_iff.mpr empty
    refine ((stringStep_attributes platform).filled_ok_iff _ elements ⟨0, none⟩
      (fun data => ⟨arraySize elements, some data⟩) attributes).trans ?_
    constructor
    · rintro (⟨failed, rfl⟩ | ⟨allocated, texts, strings, rfl⟩)
      · exact .nothing (.inr (Bool.not_eq_true _ ▸ failed))
      · rw [← strings.length]
        exact .copied filled allocated strings
    · rintro (isEmpty | ⟨-, allocated, strings⟩)
      · exact .inl ⟨Bool.not_eq_true _ ▸ isEmpty.resolve_left filled, rfl⟩
      · exact .inr ⟨allocated, _, strings, by rw [strings.length]⟩

theorem parseAttributes_error_iff {elements : List Element} {code : ErrorCode} :
    parseAttributes platform elements = .error code ↔
      code = .incorrectType ∧ BadArray platform .attributes 8 elements := by
  rw [parseAttributes]
  by_cases empty : arraySize elements = 0
  · rw [if_pos empty]
    constructor
    · nofun
    · rintro ⟨-, -, others⟩
      obtain rfl := arraySize_eq_zero_iff.mp empty
      exact absurd rfl (others [])
  · rw [if_neg empty]
    exact (stringStep_attributes platform).filled_error_iff _ elements _ _ code

/-- The attributes can be read unless an allocated array holds something else. -/
theorem exists_attributesRead_iff {elements : List Element} :
    (∃ attributes, AttributesRead platform elements attributes) ↔
      ¬BadArray platform .attributes 8 elements := by
  simp only [← parseAttributes_ok_iff]
  rw [exists_ok_iff fun code => parseAttributes_error_iff]
  exact ⟨fun none bad => none _ ⟨rfl, bad⟩, fun fine code bad => fine bad.2⟩

theorem parseData_ok_iff {elements : List Element} {data : Option (List FeltT)} :
    parseData platform Felt elements = .ok data ↔ DataRead platform Felt elements data := by
  have everyIndex : ∀ texts : List CString, (texts.mapIdx fun _ text =>
      feltFrom Felt (hexStringToUint64 platform (cString text))) =
      texts.map fun text => feltFrom Felt (hexStringToUint64 platform (cString text)) := by
    intro texts
    apply List.ext_getElem?
    intro index
    rw [List.getElem?_mapIdx, List.getElem?_map]
  refine ((stringStep_data platform Felt).filled_ok_iff _ elements none some data).trans ?_
  simp only [everyIndex]
  constructor
  · rintro (⟨failed, rfl⟩ | ⟨allocated, texts, strings, rfl⟩)
    · exact .nothing (Bool.not_eq_true _ ▸ failed)
    · exact .words allocated strings
  · rintro (failed | ⟨allocated, strings⟩)
    · exact .inl ⟨Bool.not_eq_true _ ▸ failed, rfl⟩
    · exact .inr ⟨allocated, _, strings, rfl⟩

theorem parseData_error_iff {elements : List Element} {code : ErrorCode} :
    parseData platform Felt elements = .error code ↔
      code = .incorrectType ∧ BadArray platform .data 32 elements :=
  (stringStep_data platform Felt).filled_error_iff _ elements none some code

/-! ## The three keys -/

/-- Why the value of a key cannot be read as an array of strings, with slots of so many
bytes. -/
inductive ArrayProblem (platform : Platform) (call : Allocation) (slot : Nat)
    (root : Element) (key : CString) : ErrorCode → Prop
  | missing {code : ErrorCode} (failed : root.atKey key = .error code) :
      ArrayProblem platform call slot root key code
  | notArray {element : Element} (found : root.atKey key = .ok element)
      (other : ∀ elements, element ≠ .array elements) :
      ArrayProblem platform call slot root key .incorrectType
  | notStrings {elements : List Element} (found : root.atKey key = .ok (.array elements))
      (bad : BadArray platform call slot elements) :
      ArrayProblem platform call slot root key .incorrectType

/-- Why the value of a key cannot be read as a string. -/
inductive StringProblem (root : Element) (key : CString) : ErrorCode → Prop
  | missing {code : ErrorCode} (failed : root.atKey key = .error code) :
      StringProblem root key code
  | notString {element : Element} (found : root.atKey key = .ok element)
      (other : ∀ text, element ≠ .string text) :
      StringProblem root key .incorrectType

theorem getArray_ok_iff {element : Element} {elements : List Element} :
    element.getArray = .ok elements ↔ element = .array elements := by
  cases element <;> simp [Element.getArray]

theorem getArray_error_iff {element : Element} {code : ErrorCode} :
    element.getArray = .error code ↔
      code = .incorrectType ∧ ∀ elements, element ≠ .array elements := by
  cases element <;> simp [Element.getArray, eq_comm]

theorem getCStr_ok_iff {element : Element} {copy : CString} :
    element.getCStr = .ok copy ↔ ∃ text, element = .string text ∧ copy = cString text := by
  cases element <;> simp [Element.getCStr, cString, eq_comm]

theorem getCStr_error_iff {element : Element} {code : ErrorCode} :
    element.getCStr = .error code ↔
      code = .incorrectType ∧ ∀ text, element ≠ .string text := by
  cases element <;> simp [Element.getCStr, eq_comm]

section

variable {Result : Type} {root : Element} {key : CString}

theorem readArray_ok_iff {read : List Element → Except ErrorCode Result} {result : Result} :
    (root.atKey key >>= Element.getArray >>= read) = .ok result ↔
      ∃ elements, root.atKey key = .ok (.array elements) ∧ read elements = .ok result := by
  simp only [bind_eq_ok_iff, getArray_ok_iff]
  constructor
  · rintro ⟨elements, ⟨_, found, rfl⟩, done⟩
    exact ⟨elements, found, done⟩
  · rintro ⟨elements, found, done⟩
    exact ⟨elements, ⟨_, found, rfl⟩, done⟩

theorem readArray_error_iff {call : Allocation} {slot : Nat}
    {read : List Element → Except ErrorCode Result}
    (fails : ∀ elements code, read elements = .error code ↔
      code = .incorrectType ∧ BadArray platform call slot elements) {code : ErrorCode} :
    (root.atKey key >>= Element.getArray >>= read) = .error code ↔
      ArrayProblem platform call slot root key code := by
  simp only [bind_eq_error_iff, bind_eq_ok_iff, getArray_ok_iff, getArray_error_iff, fails]
  constructor
  · rintro ((failed | ⟨element, found, rfl, other⟩) | ⟨elements, ⟨_, found, rfl⟩, rfl, bad⟩)
    · exact .missing failed
    · exact .notArray found other
    · exact .notStrings found bad
  · rintro (failed | ⟨found, other⟩ | ⟨found, bad⟩)
    · exact .inl (.inl failed)
    · exact .inl (.inr ⟨_, found, rfl, other⟩)
    · exact .inr ⟨_, ⟨_, found, rfl⟩, rfl, bad⟩

theorem readString_ok_iff {copy : CString} :
    (root.atKey key >>= Element.getCStr) = .ok copy ↔
      ∃ text, root.atKey key = .ok (.string text) ∧ copy = cString text := by
  simp only [bind_eq_ok_iff, getCStr_ok_iff]
  constructor
  · rintro ⟨_, found, text, rfl, same⟩
    exact ⟨text, found, same⟩
  · rintro ⟨text, found, same⟩
    exact ⟨_, found, text, rfl, same⟩

theorem readString_error_iff {code : ErrorCode} :
    (root.atKey key >>= Element.getCStr) = .error code ↔ StringProblem root key code := by
  simp only [bind_eq_error_iff, getCStr_error_iff]
  constructor
  · rintro (failed | ⟨element, found, rfl, other⟩)
    · exact .missing failed
    · exact .notString found other
  · rintro (failed | ⟨found, other⟩)
    · exact .inl failed
    · exact .inr ⟨_, found, rfl, other⟩

end

/-! ## The program -/

/-- What the parser makes of a document. -/
structure Represents (platform : Platform) (Felt : Type) [Stark252 Felt] (root : Element)
    (program : Program) : Prop where
  attributes : ∃ elements, root.atKey "attributes".toList = .ok (.array elements) ∧
    AttributesRead platform elements program.attributes
  compilerVersion : ∃ text, root.atKey "compiler_version".toList = .ok (.string text) ∧
    program.compilerVersion =
      if platform.malloc .compilerVersion ((cString text).length + 1) then
        some (cString text)
      else none
  data : ∃ elements, root.atKey "data".toList = .ok (.array elements) ∧
    DataRead platform Felt elements program.data

/-- What is wrong with the first key that has a problem. -/
inductive FirstProblem (platform : Platform) (root : Element) (code : ErrorCode) : Prop
  | attributes (problem : ArrayProblem platform .attributes 8 root "attributes".toList code)
  | compilerVersion
      (attributes : ∀ code, ¬ArrayProblem platform .attributes 8 root "attributes".toList code)
      (problem : StringProblem root "compiler_version".toList code)
  | data
      (attributes : ∀ code, ¬ArrayProblem platform .attributes 8 root "attributes".toList code)
      (compilerVersion : ∀ code, ¬StringProblem root "compiler_version".toList code)
      (problem : ArrayProblem platform .data 32 root "data".toList code)

/-- The part of the parser that reads the first key. -/
def rootAttributes (platform : Platform) (root : Element) : Except ErrorCode StringArray :=
  root.atKey "attributes".toList >>= Element.getArray >>= parseAttributes platform

/-- The part of the parser that reads the second key. -/
def rootVersion (root : Element) : Except ErrorCode CString :=
  root.atKey "compiler_version".toList >>= Element.getCStr

/-- The part of the parser that reads the third key. -/
def rootData (platform : Platform) (Felt : Type) [Stark252 Felt] (root : Element) :
    Except ErrorCode (Option (List FeltT)) :=
  root.atKey "data".toList >>= Element.getArray >>= parseData platform Felt

/-- The parser reads one key after the other. -/
theorem parseRoot_eq (platform : Platform) (Felt : Type) [Stark252 Felt]
    (filename : CString) :
    parseRoot platform Felt filename =
      platform.loadAndParse filename >>= fun root =>
      rootAttributes platform root >>= fun attributes =>
      rootVersion root >>= fun version =>
      rootData platform Felt root >>= fun data =>
      .ok { attributes, data, compilerVersion :=
        if platform.malloc .compilerVersion (version.length + 1) then some version
        else none } := by
  simp only [parseRoot, rootAttributes, rootVersion, rootData, bind_assoc]
  rfl

theorem rootAttributes_error_iff {root : Element} {code : ErrorCode} :
    rootAttributes platform root = .error code ↔
      ArrayProblem platform .attributes 8 root "attributes".toList code :=
  readArray_error_iff fun _ _ => parseAttributes_error_iff

theorem rootData_error_iff {root : Element} {code : ErrorCode} :
    rootData platform Felt root = .error code ↔
      ArrayProblem platform .data 32 root "data".toList code :=
  readArray_error_iff fun _ _ => parseData_error_iff

theorem parseRoot_ok_iff {filename : CString} {program : Program} :
    parseRoot platform Felt filename = .ok program ↔
      ∃ root, platform.loadAndParse filename = .ok root ∧
        Represents platform Felt root program := by
  rw [parseRoot_eq, bind_eq_ok_iff]
  refine exists_congr fun root => and_congr_right fun _ => ?_
  simp only [bind_eq_ok_iff]
  simp only [rootAttributes, rootVersion, rootData, readArray_ok_iff, readString_ok_iff,
    parseAttributes_ok_iff, parseData_ok_iff]
  constructor
  · rintro ⟨attributes, first, _, ⟨text, second, rfl⟩, data, third, same⟩
    obtain rfl := Except.ok.inj same
    exact ⟨first, ⟨text, second, rfl⟩, third⟩
  · rintro ⟨first, ⟨text, second, copied⟩, third⟩
    refine ⟨program.attributes, first, _, ⟨text, second, rfl⟩, program.data, third, ?_⟩
    rw [← copied]

theorem parseRoot_error_iff {filename : CString} {code : ErrorCode} :
    parseRoot platform Felt filename = .error code ↔
      platform.loadAndParse filename = .error code ∨
      ∃ root, platform.loadAndParse filename = .ok root ∧ FirstProblem platform root code := by
  rw [parseRoot_eq, bind_eq_error_iff]
  refine or_congr_right (exists_congr fun root => and_congr_right fun _ => ?_)
  have attributesFine : (∃ attributes, rootAttributes platform root = .ok attributes) ↔ _ :=
    exists_ok_iff fun code => rootAttributes_error_iff
  have versionFine : (∃ version, rootVersion root = .ok version) ↔ _ :=
    exists_ok_iff fun code => readString_error_iff
  simp only [bind_eq_error_iff, rootAttributes_error_iff, rootData_error_iff]
  constructor
  · rintro (problem | ⟨attributes, first, problem | ⟨version, second, problem | ⟨_, -, ⟨⟩⟩⟩⟩)
    · exact .attributes problem
    · exact .compilerVersion (attributesFine.mp ⟨attributes, first⟩)
        (readString_error_iff.mp problem)
    · exact .data (attributesFine.mp ⟨attributes, first⟩)
        (versionFine.mp ⟨version, second⟩) problem
  · rintro (problem | ⟨first, problem⟩ | ⟨first, second, problem⟩)
    · exact .inl problem
    · obtain ⟨attributes, first⟩ := attributesFine.mpr first
      exact .inr ⟨attributes, first, .inl (readString_error_iff.mpr problem)⟩
    · obtain ⟨attributes, first⟩ := attributesFine.mpr first
      obtain ⟨version, second⟩ := versionFine.mpr second
      exact .inr ⟨attributes, first, .inr ⟨version, second, .inl problem⟩⟩

theorem atKey_error_cases {root : Element} {key : CString} {code : ErrorCode}
    (failed : root.atKey key = .error code) :
    code = .noSuchField ∨ code = .incorrectType := by
  cases root with
  | object fields =>
      rw [Element.atKey] at failed
      split at failed
      · cases failed
      · exact .inl (Except.error.inj failed).symm
  | string text => exact .inr (Except.error.inj failed).symm
  | array elements => exact .inr (Except.error.inj failed).symm
  | other => exact .inr (Except.error.inj failed).symm

/-- The error of a key is that it is missing or that a value has another type. -/
theorem FirstProblem.code_cases {root : Element} {code : ErrorCode}
    (problem : FirstProblem platform root code) :
    code = .noSuchField ∨ code = .incorrectType := by
  have ofArray : ∀ {call : Allocation} {slot : Nat} {key : CString} {code : ErrorCode},
      ArrayProblem platform call slot root key code →
        code = .noSuchField ∨ code = .incorrectType := by
    rintro call slot key code (failed | _ | _)
    · exact atKey_error_cases failed
    · exact .inr rfl
    · exact .inr rfl
  cases problem with
  | attributes problem => exact ofArray problem
  | compilerVersion attributes problem =>
      cases problem with
      | missing failed => exact atKey_error_cases failed
      | notString => exact .inr rfl
  | data attributes compilerVersion problem => exact ofArray problem

theorem parseJsonFilename_ok_iff {programSize : Nat} {filename : CString}
    {program : Program} :
    parseJsonFilename platform Felt programSize filename = .ok program ↔
      platform.malloc .program programSize = true ∧
      ∃ root, platform.loadAndParse filename = .ok root ∧
        Represents platform Felt root program := by
  rw [← parseRoot_ok_iff, parseJsonFilename]
  cases platform.malloc .program programSize with
  | false => simp
  | true =>
      rw [if_neg (by simp)]
      cases parseRoot platform Felt filename <;> simp

theorem parseJsonFilename_error_iff {programSize : Nat} {filename : CString}
    {failure : Failure} :
    parseJsonFilename platform Felt programSize filename = .error failure ↔
      platform.malloc .program programSize = false ∧ failure = .exitFailure ∨
      platform.malloc .program programSize = true ∧ ∃ code, failure = .simdjsonError code ∧
        (platform.loadAndParse filename = .error code ∨
        ∃ root, platform.loadAndParse filename = .ok root ∧
          FirstProblem platform root code) := by
  have failed := @parseRoot_error_iff platform Felt _ filename
  simp only [← failed]
  rw [parseJsonFilename]
  cases platform.malloc .program programSize with
  | false => simp [eq_comm]
  | true =>
      rw [if_neg (by simp)]
      cases parseRoot platform Felt filename <;> simp [eq_comm]

/-- The parser returns a program exactly when the three keys have values of the right
shape, and that program is made of these values alone.  Otherwise it exits without memory
for the program, or throws the error of the first key with a problem, which is that the
key is missing or that a value has another type: never that an index is out of bounds. -/
theorem parseJsonFilename_outcome (platform : Platform) (Felt : Type) [Stark252 Felt]
    (programSize : Nat) (filename : CString) :
    (∀ program, parseJsonFilename platform Felt programSize filename = .ok program ↔
      platform.malloc .program programSize = true ∧
      ∃ root, platform.loadAndParse filename = .ok root ∧
        Represents platform Felt root program) ∧
    (∀ failure, parseJsonFilename platform Felt programSize filename = .error failure ↔
      platform.malloc .program programSize = false ∧ failure = .exitFailure ∨
      platform.malloc .program programSize = true ∧ ∃ code, failure = .simdjsonError code ∧
        (platform.loadAndParse filename = .error code ∨
        ∃ root, platform.loadAndParse filename = .ok root ∧
          FirstProblem platform root code)) ∧
    ∀ root code, FirstProblem platform root code →
      code = .noSuchField ∨ code = .incorrectType :=
  ⟨fun _ => parseJsonFilename_ok_iff, fun _ => parseJsonFilename_error_iff,
    fun _ _ problem => problem.code_cases⟩

end CairoVM.Parser
