import CairoVM.Library.Computes
import CairoVM.Model.Parser

/-!
# The program parser on the heap

The functions of `parser.cpp` that allocate, at the level of pointers.  The document of
`simdjson` is a value here too: only the blocks that the parser allocates itself are on
the heap.  An access outside an allocated array, a `strcpy` into a buffer that is too
short and the use of a field that was never written are faults.
-/

namespace CairoVM.Parser.OnHeap

open HeapLogic

/-- The fields of `Program` that the parser writes.  `attributesLength` is `none` until
it is written. -/
structure ProgramFields where
  attributesLength : Option Nat
  attributesData : Pointer
  compilerVersion : Pointer
  data : Pointer
  deriving DecidableEq, Repr

/-- The fields of a structure that was just allocated. -/
def ProgramFields.unwritten : ProgramFields :=
  ⟨none, .indeterminate, .indeterminate, .indeterminate⟩

/-- What a block holds: a buffer for characters, a C string in such a buffer, an array
of pointers, an array of felts, or a `Program`. -/
inductive Content where
  | buffer (size : Nat)
  | chars (size : Nat) (text : CString)
  | pointers (slots : List Pointer)
  | felts (slots : List (Option FeltT))
  | program (fields : ProgramFields)
  deriving DecidableEq, Repr

namespace Content

/-- The number of bytes that are allocated for a block. -/
def size (programSize : Nat) : Content → Nat
  | .buffer size => size
  | .chars size _ => size
  | .pointers slots => slots.length * 8
  | .felts slots => slots.length * 32
  | .program _ => programSize

def buffer? : Content → Option Nat
  | .buffer size => some size
  | .chars size _ => some size
  | _ => none

def chars? : Content → Option CString
  | .chars _ text => some text
  | _ => none

def pointers? : Content → Option (List Pointer)
  | .pointers slots => some slots
  | _ => none

def felts? : Content → Option (List (Option FeltT))
  | .felts slots => some slots
  | _ => none

def program? : Content → Option ProgramFields
  | .program fields => some fields
  | _ => none

end Content

abbrev Prog := HeapLogic.Program Content Failure

/-! ## Accesses -/

/-- Write fields of a `Program`. -/
def updateProgram (program : Pointer) (change : ProgramFields → ProgramFields) :
    Prog Unit := do
  let fields ← loadAs Content.program? program
  store program (.program (change fields))

/-- Write a slot of an array of pointers. -/
def storePointer (array : Pointer) (index : Nat) (value : Pointer) : Prog Unit := do
  let slots ← loadAs Content.pointers? array
  if index < slots.length then
    store array (.pointers (slots.set index value))
  else
    stop (.fault .outOfBounds)

/-- Read a slot of an array of pointers. -/
def loadPointer (array : Pointer) (index : Nat) : Prog Pointer := do
  let slots ← loadAs Content.pointers? array
  match slots[index]? with
  | some value => pure value
  | none => stop (.fault .outOfBounds)

/-- Write a slot of an array of felts. -/
def storeFelt (array : Pointer) (index : Nat) (value : FeltT) : Prog Unit := do
  let slots ← loadAs Content.felts? array
  if index < slots.length then
    store array (.felts (slots.set index (some value)))
  else
    stop (.fault .outOfBounds)

/-- `strcpy`, which also copies the null byte. -/
def strcpy (target : Pointer) (source : CString) : Prog Unit := do
  let size ← loadAs Content.buffer? target
  if source.length + 1 ≤ size then
    store target (.chars size source)
  else
    stop (.fault .outOfBounds)

/-- An accessor of `simdjson` whose exception nobody catches. -/
def accessor {Value : Type} (value : Except ErrorCode Value) : Prog Value :=
  throwing Failure.simdjsonError value

/-! ## The parser -/

section

variable (place : HeapLogic.Platform Content) (platform : Parser.Platform)

/-- One iteration of the loop of `parse_attributes`. -/
def attributesStep (attributesArray : List Element) (program : Pointer) (i : Nat) :
    Prog Unit := do
  let elem ← accessor (arrayAt attributesArray i)
  let stringLength ← accessor elem.getStringLength
  let entry ← malloc place (.buffer (stringLength + 1))
  let fields ← loadAs Content.program? program
  storePointer fields.attributesData i entry
  if entry = .null then
    pure ()
  else do
    let source ← accessor elem.getCStr
    strcpy entry source

/-- The loop of `parse_attributes`, from index `i` on. -/
def attributesLoop (attributesArray : List Element) (program : Pointer) :
    (i remaining : Nat) → Prog Unit
  | _, 0 => pure ()
  | i, remaining + 1 => do
      attributesStep place attributesArray program i
      attributesLoop attributesArray program (i + 1) remaining

/-- `parse_attributes`. -/
def parseAttributes (attributesArray : List Element) (program : Pointer) : Prog Unit := do
  let elements := arraySize attributesArray
  if elements = 0 then
    updateProgram program fun fields => { fields with attributesLength := some 0 }
    updateProgram program fun fields => { fields with attributesData := .null }
  else
    updateProgram program fun fields => { fields with attributesLength := some elements }
    let data ← malloc place (.pointers (List.replicate elements .indeterminate))
    updateProgram program fun fields => { fields with attributesData := data }
    if data = .null then
      updateProgram program fun fields => { fields with attributesLength := some 0 }
      updateProgram program fun fields => { fields with attributesData := .null }
    else
      attributesLoop place attributesArray program 0 elements

/-- One iteration of the loop of `parse_data`. -/
def dataStep (Felt : Type) [Stark252 Felt] (dataArray : List Element)
    (program : Pointer) (i : Nat) : Prog Unit := do
  let elem ← accessor (arrayAt dataArray i)
  let hex ← accessor elem.getCStr
  let num := hexStringToUint64 platform hex
  let fields ← loadAs Content.program? program
  storeFelt fields.data i (feltFrom Felt num)

/-- The loop of `parse_data`, from index `i` on. -/
def dataLoop (Felt : Type) [Stark252 Felt] (dataArray : List Element)
    (program : Pointer) : (i remaining : Nat) → Prog Unit
  | _, 0 => pure ()
  | i, remaining + 1 => do
      dataStep platform Felt dataArray program i
      dataLoop Felt dataArray program (i + 1) remaining

/-- `parse_data`. -/
def parseData (Felt : Type) [Stark252 Felt] (dataArray : List Element)
    (program : Pointer) : Prog Unit := do
  let elements := arraySize dataArray
  let data ← malloc place (.felts (List.replicate elements none))
  updateProgram program fun fields => { fields with data }
  if data = .null then
    pure ()
  else
    dataLoop platform Felt dataArray program 0 elements

/-- The part of `parse_json_filename` that copies the compiler version. -/
def parseCompilerVersion (version : CString) (program : Pointer) : Prog Unit := do
  let compilerVersion ← malloc place (.buffer (version.length + 1))
  updateProgram program fun fields => { fields with compilerVersion }
  if compilerVersion = .null then
    pure ()
  else
    strcpy compilerVersion version

/-- The part of `parse_json_filename` that fills in the allocated program. -/
def parseRoot (Felt : Type) [Stark252 Felt] (filename : CString) (program : Pointer) :
    Prog Unit := do
  let root ← accessor (platform.loadAndParse filename)
  let attributes ← accessor (root.atKey "attributes".toList)
  let attributesArray ← accessor attributes.getArray
  parseAttributes place attributesArray program
  let versionElement ← accessor (root.atKey "compiler_version".toList)
  let version ← accessor versionElement.getCStr
  parseCompilerVersion place version program
  let dataElement ← accessor (root.atKey "data".toList)
  let dataArray ← accessor dataElement.getArray
  parseData place platform Felt dataArray program

/-- `parse_json_filename`. -/
def parseJsonFilename (Felt : Type) [Stark252 Felt] (filename : CString) :
    Prog Pointer := do
  let program ← malloc place (.program .unwritten)
  if program = .null then
    free program
    stop (.thrown .exitFailure)
  else
    parseRoot place platform Felt filename program
    pure program

/-- The loop of `free_program`, from index `i` on. -/
def freeEntries (data : Pointer) : (i remaining : Nat) → Prog Unit
  | _, 0 => pure ()
  | i, remaining + 1 => do
      let entry ← loadPointer data i
      free entry
      freeEntries data (i + 1) remaining

/-- `free_program`.  The loop has its own test for a length above zero. -/
def freeProgram (program : Pointer) : Prog Unit := do
  let fields ← loadAs Content.program? program
  match fields.attributesLength with
  | none => stop (.fault .indeterminateAccess)
  | some length =>
      freeEntries fields.attributesData 0 length
      free fields.attributesData
      free fields.compilerVersion
      free fields.data
      free program

/-! ## What the caller sees -/

/-- The string that a pointer designates. -/
def readString : Pointer → Prog (Option CString)
  | .null => pure none
  | pointer => do
      let text ← loadAs Content.chars? pointer
      pure (some text)

/-- The attributes of a program. -/
def readAttributes : Pointer → Prog (Option (List (Option CString)))
  | .null => pure none
  | pointer => do
      let slots ← loadAs Content.pointers? pointer
      let texts ← slots.mapM readString
      pure (some texts)

/-- The data of a program, which must have been written in full. -/
def readData : Pointer → Prog (Option (List FeltT))
  | .null => pure none
  | pointer => do
      let slots ← loadAs Content.felts? pointer
      match slots.mapM id with
      | some words => pure (some words)
      | none => stop (.fault .indeterminateAccess)

/-- Everything that can be read from a program through its pointer. -/
def readProgram (program : Pointer) : Prog Parser.Program := do
  let fields ← loadAs Content.program? program
  match fields.attributesLength with
  | none => stop (.fault .indeterminateAccess)
  | some length =>
      let data ← readAttributes fields.attributesData
      let compilerVersion ← readString fields.compilerVersion
      let words ← readData fields.data
      pure { attributes := { length, data }, compilerVersion, data := words }

/-- The life of a program: it is parsed, read in full, and freed. -/
def parserSession (Felt : Type) [Stark252 Felt] (filename : CString) :
    Prog Parser.Program := do
  let program ← parseJsonFilename place platform Felt filename
  let view ← readProgram program
  freeProgram program
  pure view

end
end CairoVM.Parser.OnHeap
