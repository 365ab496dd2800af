import CairoVM.Model.Lambdaworks

/-!
# The program parser

The functions of `parser.cpp`, over the part of the `simdjson` document model that
they use.  Only the fields of `Program` that the parser writes are modelled, and what
it prints to the console is left out.
-/

namespace CairoVM.Parser

/-- A C string: its bytes, each as the character with that code. -/
abbrev CString := List Char

/-! ## The document model -/

/-- `simdjson::error_code`: those of the accessors, and the others by their number. -/
inductive ErrorCode where
  | incorrectType
  | indexOutOfBounds
  | noSuchField
  | other (code : Nat)
  deriving DecidableEq, Repr

/-- `simdjson::dom::element`.  Numbers, booleans and null are not told apart. -/
inductive Element where
  | string (value : CString)
  | array (elements : List Element)
  | object (fields : List (CString × Element))
  | other

/-- `element::get_array`. -/
def Element.getArray : Element → Except ErrorCode (List Element)
  | .array elements => .ok elements
  | _ => .error .incorrectType

/-- `element::get_c_str`.  A C string ends at its first null byte. -/
def Element.getCStr : Element → Except ErrorCode CString
  | .string value => .ok (value.takeWhile (· ≠ Char.ofNat 0))
  | _ => .error .incorrectType

/-- `element::get_string_length`. -/
def Element.getStringLength : Element → Except ErrorCode Nat
  | .string value => .ok value.length
  | _ => .error .incorrectType

/-- `element::operator[]` with a key: the first field of that name. -/
def Element.atKey (element : Element) (key : CString) : Except ErrorCode Element :=
  match element with
  | .object fields =>
      match fields.lookup key with
      | some value => .ok value
      | none => .error .noSuchField
  | _ => .error .incorrectType

/-- `array::size`, which saturates. -/
def arraySize (elements : List Element) : Nat := min elements.length 0xFFFFFF

/-- `array::at`. -/
def arrayAt (elements : List Element) (index : Nat) : Except ErrorCode Element :=
  match elements[index]? with
  | some element => .ok element
  | none => .error .indexOutOfBounds

/-! ## The parser -/

/-- The calls of `malloc` in the parser: one for the program, for each array and for each
string. -/
inductive Allocation where
  | program
  | attributes
  | attribute (index : Nat)
  | compilerVersion
  | data
  deriving DecidableEq, Repr

/-- What the parser gets from the C library and from `simdjson`. -/
structure Platform where
  /-- Whether a call that asks for so many bytes gets them. -/
  malloc : Allocation → Nat → Bool
  /-- The number that `sscanf` stores for the format `SCNx64`, if it stores one. -/
  sscanf : CString → Option UInt64
  /-- `padded_string::load` followed by `dom::parser::parse`. -/
  loadAndParse : CString → Except ErrorCode Element

/-- `StringArray`.  An entry whose allocation failed is null. -/
structure StringArray where
  length : Nat
  data : Option (List (Option CString))
  deriving DecidableEq, Repr

/-- `Program`, as far as the parser fills it in.  The pointers may be null. -/
structure Program where
  attributes : StringArray
  compilerVersion : Option CString
  data : Option (List FeltT)
  deriving DecidableEq, Repr

/-- How the parser ends when it does not return: `exit`, or an exception of
`simdjson` that nobody catches. -/
inductive Failure where
  | exitFailure
  | simdjsonError (code : ErrorCode)
  deriving DecidableEq, Repr

/-- `program->data[index]`, if the array has that entry. -/
def Program.word (program : Program) (index : Nat) : Option FeltT :=
  program.data.bind (·[index]?)

variable (platform : Platform)

/-- `hex_string_to_uint64`. -/
def hexStringToUint64 (hex : CString) : UInt64 :=
  let num : UInt64 := 0
  (platform.sscanf hex).getD num

/-- `parse_attributes`.  A pointer has eight bytes. -/
def parseAttributes (attributesArray : List Element) : Except ErrorCode StringArray :=
  let elements := arraySize attributesArray
  if elements = 0 then
    .ok { length := 0, data := none }
  else if platform.malloc .attributes (elements * 8) = false then
    .ok { length := 0, data := none }
  else do
    let data ← (List.range elements).mapM fun i => do
      let elem ← arrayAt attributesArray i
      let stringLength ← elem.getStringLength
      if platform.malloc (.attribute i) (stringLength + 1) = false then
        pure none
      else
        let source ← elem.getCStr
        pure (some source)
    pure { length := elements, data := some data }

/-- `parse_data`.  A felt has four limbs of eight bytes. -/
def parseData (Felt : Type) [Stark252 Felt] (dataArray : List Element) :
    Except ErrorCode (Option (List FeltT)) :=
  let elements := arraySize dataArray
  if platform.malloc .data (elements * 32) = false then
    .ok none
  else do
    let data ← (List.range elements).mapM fun i => do
      let elem ← arrayAt dataArray i
      let hex ← elem.getCStr
      let num := hexStringToUint64 platform hex
      pure (feltFrom Felt num)
    pure (some data)

/-- The part of `parse_json_filename` that can throw. -/
def parseRoot (Felt : Type) [Stark252 Felt] (filename : CString) :
    Except ErrorCode Program := do
  let root ← platform.loadAndParse filename
  let attributesArray ← (← root.atKey "attributes".toList).getArray
  let attributes ← parseAttributes platform attributesArray
  let version ← (← root.atKey "compiler_version".toList).getCStr
  let compilerVersion :=
    if platform.malloc .compilerVersion (version.length + 1) then some version else none
  let dataArray ← (← root.atKey "data".toList).getArray
  let data ← parseData platform Felt dataArray
  pure { attributes, compilerVersion, data }

/-- `parse_json_filename`.  `programSize` is the size of a `Program` structure. -/
def parseJsonFilename (Felt : Type) [Stark252 Felt] (programSize : Nat)
    (filename : CString) : Except Failure Program :=
  if platform.malloc .program programSize = false then
    .error .exitFailure
  else
    match parseRoot platform Felt filename with
    | .ok program => .ok program
    | .error code => .error (.simdjsonError code)

end CairoVM.Parser
