import CairoVM.Model.HeapParser

/-!
# The parser builds a program that it can free

The parser on the heap computes the program of the parser on values, when the allocations
that fail in the one are those that fail in the other.  Whatever allocations fail, it never
leaves a buffer or an array, and `free_program` releases all that it has allocated.
-/

namespace CairoVM.Parser.OnHeap

open HeapLogic
open Assertion (pointsTo fact has_pointsTo fact_mul_apply le_fact_mul)

/-! ## Requests -/

/-- A call of `malloc`, with the number of bytes it asks for. -/
abbrev Request := Allocation × Nat

/-- The requests of some calls. -/
def requestsOf (calls : Allocation → Prop) : Set Request := {request | calls request.1}

theorem requestsOf_apart {first second : Allocation → Prop}
    (apart : ∀ call, first call → ¬second call) :
    ∀ request ∈ requestsOf first, request ∉ requestsOf second :=
  fun request inFirst => apart request.1 inFirst

theorem requestsOf_union_subset {first second all : Allocation → Prop}
    (left : ∀ call, first call → all call) (right : ∀ call, second call → all call) :
    requestsOf first ∪ requestsOf second ⊆ requestsOf all :=
  Set.union_subset (fun request inFirst => left request.1 inFirst)
    fun request inSecond => right request.1 inSecond

/-- The platform that answers requests in the given way. -/
def answering (platform : Parser.Platform) (answers : Request → Bool) : Parser.Platform :=
  { platform with malloc := fun call size => answers (call, size) }

/-- In some heap the allocator gives this answer to a request for so many bytes. -/
def MayAnswer (place : HeapLogic.Platform Content) (programSize : Nat) (request : Request)
    (answer : Bool) : Prop :=
  ∃ heap content, content.size programSize = request.2 ∧
    (place.place heap content).isSome = answer

theorem exists_mayAnswer (place : HeapLogic.Platform Content) (programSize : Nat)
    (request : Request) : ∃ answer, MayAnswer place programSize request answer :=
  ⟨_, ∅, .buffer request.2, rfl, rfl⟩

/-- An allocation fails exactly when the platform has no block of its size for any call. -/
def Follows (place : HeapLogic.Platform Content) (platform : Parser.Platform)
    (programSize : Nat) : Prop :=
  ∀ heap content call, place.place heap content = none ↔
    platform.malloc call (content.size programSize) = false

/-- Such a platform leaves the allocator no choice. -/
theorem Follows.answer_eq {place : HeapLogic.Platform Content} {platform : Parser.Platform}
    {programSize : Nat} (follows : Follows place platform programSize) {request : Request}
    {answer : Bool} (mayAnswer : MayAnswer place programSize request answer) :
    answer = platform.malloc request.1 request.2 := by
  obtain ⟨heap, content, sized, rfl⟩ := mayAnswer
  have fails := follows heap content request.1
  rw [sized] at fails
  cases placed : place.place heap content with
  | none => exact (fails.mp placed).symm
  | some address =>
      refine (Bool.eq_true_of_not_eq_false fun failed => ?_).symm
      rw [fails.mpr failed] at placed
      cases placed

/-! ## What the blocks represent -/

/-- A string of its own, or none at all. -/
def stringAt : Pointer → Option CString → Assertion Content
  | .null, none => 1
  | .target address, some text => ⨆ size, pointsTo address ⟨.dynamic, .chars size text⟩
  | _, _ => ⊥

/-- A slot of the attributes, and the string it represents. -/
abbrev Entry := Pointer × Option CString

def entryAt (entry : Entry) : Assertion Content := stringAt entry.1 entry.2

/-- An array of slots, some of which own a string. -/
def slotsAt (array : Address) (slots : List Pointer) (entries : List Entry) :
    Assertion Content :=
  pointsTo array ⟨.dynamic, .pointers slots⟩ * (entries.map entryAt).prod

theorem slotsAt_append (array : Address) (slots : List Pointer) (entries : List Entry)
    (entry : Entry) :
    slotsAt array slots (entries ++ [entry]) =
      pointsTo array ⟨.dynamic, .pointers slots⟩ *
        ((entries.map entryAt).prod * entryAt entry) := by
  rw [slotsAt, List.map_append, List.prod_append, List.map_singleton, List.prod_singleton]

def attributesAt (pointer : Pointer) (attributes : StringArray) : Assertion Content :=
  match pointer, attributes.data with
  | .null, none => fact (attributes.length = 0)
  | .target array, some texts =>
      ⨆ entries : List Entry,
        fact (entries.map Prod.snd = texts ∧ attributes.length = texts.length) *
          slotsAt array (entries.map Prod.fst) entries
  | _, _ => ⊥

def dataAt : Pointer → Option (List FeltT) → Assertion Content
  | .null, none => 1
  | .target array, some words => pointsTo array ⟨.dynamic, .felts (words.map some)⟩
  | _, _ => ⊥

def fieldsAt (address : Address) (fields : ProgramFields) : Assertion Content :=
  pointsTo address ⟨.dynamic, .program fields⟩

/-- A program with everything it owns. -/
def programAt (address : Address) (program : Parser.Program) : Assertion Content :=
  ⨆ fields : ProgramFields,
    fact (fields.attributesLength = some program.attributes.length) *
      (fieldsAt address fields *
        (attributesAt fields.attributesData program.attributes *
          (stringAt fields.compilerVersion program.compilerVersion *
            dataAt fields.data program.data)))

/-! ## Accesses -/

section Accesses

variable {mayStop : Stop Failure → Prop} {Result : Type} {pre rest : Assertion Content}
  {post : Result → Assertion Content} {address : Address}

theorem has_fieldsAt (address : Address) (fields : ProgramFields) :
    (fieldsAt address fields).Has address ⟨.dynamic, .program fields⟩ :=
  has_pointsTo _ _

theorem updateProgram_rule {fields : ProgramFields}
    {change : ProgramFields → ProgramFields} (split : pre = fieldsAt address fields * rest)
    {next : PUnit → Prog Result}
    (goOn : Triple mayStop (fieldsAt address (change fields) * rest) (next ()) post) :
    Triple mayStop pre (updateProgram (.target address) change >>= next) post := by
  rw [updateProgram, bind_assoc]
  have has : pre.Has address ⟨.dynamic, .program fields⟩ := by
    rw [split]
    exact (has_fieldsAt _ _).mul_right _
  refine Triple.loadAs has (by rfl) ?_
  exact Triple.store split goOn

theorem storePointer_rule {slots : List Pointer} {index : Nat} {value : Pointer}
    (split : pre = pointsTo address ⟨.dynamic, .pointers slots⟩ * rest)
    (inside : index < slots.length) {next : PUnit → Prog Result}
    (goOn : Triple mayStop
      (pointsTo address ⟨.dynamic, .pointers (slots.set index value)⟩ * rest)
      (next ()) post) :
    Triple mayStop pre (storePointer (.target address) index value >>= next) post := by
  rw [storePointer, bind_assoc]
  have has : pre.Has address ⟨.dynamic, .pointers slots⟩ := by
    rw [split]
    exact (has_pointsTo _ _).mul_right _
  refine Triple.loadAs has (by rfl) ?_
  rw [if_pos inside]
  exact Triple.store split goOn

theorem storeFelt_rule {slots : List (Option FeltT)} {index : Nat} {value : FeltT}
    (split : pre = pointsTo address ⟨.dynamic, .felts slots⟩ * rest)
    (inside : index < slots.length) {next : PUnit → Prog Result}
    (goOn : Triple mayStop
      (pointsTo address ⟨.dynamic, .felts (slots.set index (some value))⟩ * rest)
      (next ()) post) :
    Triple mayStop pre (storeFelt (.target address) index value >>= next) post := by
  rw [storeFelt, bind_assoc]
  have has : pre.Has address ⟨.dynamic, .felts slots⟩ := by
    rw [split]
    exact (has_pointsTo _ _).mul_right _
  refine Triple.loadAs has (by rfl) ?_
  rw [if_pos inside]
  exact Triple.store split goOn

theorem strcpy_triple {size : Nat} {source : CString} (fits : source.length + 1 ≤ size) :
    Triple mayStop (pointsTo address ⟨.dynamic, .buffer size⟩)
      (strcpy (.target address) source)
      fun _ => stringAt (.target address) (some source) := by
  refine Triple.loadAs (has_pointsTo _ _) (by rfl) ?_
  rw [if_pos fits, ← bind_pure (store _ _)]
  refine Triple.store (mul_one _).symm (Triple.pure _ ?_)
  rw [mul_one]
  exact le_iSup_of_le size le_rfl

end Accesses

/-! ## Attributes -/

section

variable {place : HeapLogic.Platform Content} {platform : Parser.Platform}
  {programSize : Nat}

/-- An allocation, in a computation that asks the platform for it. -/
theorem malloc_computes {Error Result Value : Type} {wrap : Error → Failure}
    {pre : Assertion Content} {initial : Content} {call : Allocation} {size : Nat}
    {asked : Set Request} {failure success : (Request → Bool) → Except Error Value}
    {next : Pointer → Prog Result} {represents : Result → Value → Assertion Content}
    (sized : initial.size programSize = size) (fresh : (call, size) ∉ asked)
    (failed : Computes wrap (MayAnswer place programSize) asked failure
      pre (next .null) represents)
    (placed : ∀ address, Computes wrap (MayAnswer place programSize) asked success
      (pointsTo address ⟨.dynamic, initial⟩ * pre) (next (.target address)) represents) :
    Computes wrap (MayAnswer place programSize) (insert (call, size) asked)
      (fun answers => if answers (call, size) = false then failure answers
        else success answers) pre
      (malloc place initial >>= next) represents := by
  let branch (answer : Bool) (answers : Request → Bool) : Except Error Value :=
    if answer = false then failure answers else success answers
  apply Triple.malloc_cases
  · intro heap outcome
    have mayFail : MayAnswer place programSize (call, size) false :=
      ⟨heap, initial, sized, by rw [outcome]; rfl⟩
    exact Computes.ask branch fresh mayFail failed
  · intro heap address outcome
    have mayPlace : MayAnswer place programSize (call, size) true :=
      ⟨heap, initial, sized, by rw [outcome]; rfl⟩
    exact Computes.ask branch fresh mayPlace (placed address)

/-- One iteration of `parse_attributes`, as a computation. -/
def attributeOf (platform : Parser.Platform) (attributesArray : List Element) (i : Nat) :
    Except ErrorCode (Option CString) := do
  let elem ← arrayAt attributesArray i
  let stringLength ← elem.getStringLength
  if platform.malloc (.attribute i) (stringLength + 1) = false then
    pure none
  else
    let source ← elem.getCStr
    pure (some source)

/-- A C string is not longer than the string it was taken from. -/
theorem length_getCStr_le {element : Element} {stringLength : Nat} {source : CString}
    (measured : element.getStringLength = .ok stringLength)
    (found : element.getCStr = .ok source) : source.length ≤ stringLength := by
  cases element with
  | string value =>
      obtain rfl := Except.ok.inj measured
      obtain rfl := Except.ok.inj found
      exact (List.takeWhile_sublist _).length_le
  | array elements => cases found
  | object fields => cases found
  | other => cases found

/-- The slots after some iterations: those of the entries, and unwritten ones. -/
def loopSlots (entries : List Entry) (remaining : Nat) : List Pointer :=
  entries.map Prod.fst ++ List.replicate remaining .indeterminate

theorem set_loopSlots (entries : List Entry) (remaining : Nat) (entry : Entry) :
    (loopSlots entries (remaining + 1)).set entries.length entry.1 =
      loopSlots (entries ++ [entry]) remaining := by
  simp [loopSlots, List.replicate_succ]

theorem attributesStep_computes {program array : Address} {fields : ProgramFields}
    (data : fields.attributesData = .target array) (attributesArray : List Element)
    (entries : List Entry) (remaining : Nat) :
    Computes Failure.simdjsonError (MayAnswer place programSize)
      (requestsOf (· = .attribute entries.length))
      (fun answers => attributeOf (answering platform answers) attributesArray entries.length)
      (fieldsAt program fields * slotsAt array (loopSlots entries (remaining + 1)) entries)
      (attributesStep place attributesArray (.target program) entries.length)
      fun _ text => ⨆ pointer,
        fieldsAt program fields *
          slotsAt array (loopSlots (entries ++ [(pointer, text)]) remaining)
            (entries ++ [(pointer, text)]) := by
  have owned : (fieldsAt program fields).Has program ⟨.dynamic, .program fields⟩ :=
    has_fieldsAt _ _
  have inside : entries.length < (loopSlots entries (remaining + 1)).length := by
    simp [loopSlots]
  refine Computes.throwing fun elem _ => Computes.throwing fun stringLength measured => ?_
  refine Computes.mono (malloc_computes (by rfl) (Set.notMem_empty _) ?_ ?_)
    (Set.insert_subset rfl (Set.empty_subset _))
  · refine Triple.loadAs (owned.mul_right _) (by rfl) ?_
    rw [data]
    refine storePointer_rule (mul_left_comm _ _ _) inside ?_
    refine Computes.pure _ (le_iSup_of_le .null ?_)
    have nothing : entryAt (.null, none) = 1 := rfl
    rw [set_loopSlots entries remaining (.null, none), slotsAt_append, nothing, mul_one,
      mul_left_comm]
  · intro address
    refine Triple.loadAs ((owned.mul_right _).mul_left _) (by rfl) ?_
    have split : pointsTo address ⟨.dynamic, .buffer (stringLength + 1)⟩ *
        (fieldsAt program fields *
          slotsAt array (loopSlots entries (remaining + 1)) entries) =
        pointsTo array ⟨.dynamic, .pointers (loopSlots entries (remaining + 1))⟩ *
          (pointsTo address ⟨.dynamic, .buffer (stringLength + 1)⟩ *
            (fieldsAt program fields * (entries.map entryAt).prod)) := by
      rw [slotsAt]
      ac_rfl
    rw [data]
    refine storePointer_rule split inside ?_
    rw [if_neg (by simp)]
    refine Computes.throwing fun source found => ?_
    have fits : source.length + 1 ≤ stringLength + 1 :=
      Nat.succ_le_succ (length_getCStr_le measured found)
    rw [← bind_pure (strcpy _ _)]
    refine Triple.call (strcpy_triple fits) (mul_left_comm _ _ _) fun _ => ?_
    refine Computes.pure _ (le_iSup_of_le (.target address) ?_)
    rw [set_loopSlots entries remaining (.target address, some source), slotsAt_append]
    refine le_of_eq ?_
    rw [entryAt]
    ac_rfl

theorem attributesLoop_computes {program array : Address} {fields : ProgramFields}
    (data : fields.attributesData = .target array) (attributesArray : List Element)
    (entries : List Entry) (remaining : Nat) :
    Computes Failure.simdjsonError (MayAnswer place programSize)
      (requestsOf fun call => ∃ i ≥ entries.length, call = .attribute i)
      (fun answers => (List.range' entries.length remaining).mapM
        (attributeOf (answering platform answers) attributesArray))
      (fieldsAt program fields * slotsAt array (loopSlots entries remaining) entries)
      (attributesLoop place attributesArray (.target program) entries.length remaining)
      fun _ texts => ⨆ later : List Entry,
        fact (later.map Prod.snd = texts ∧ later.length = remaining) *
          (fieldsAt program fields *
            slotsAt array ((entries ++ later).map Prod.fst) (entries ++ later)) := by
  induction remaining generalizing entries with
  | zero =>
      simp only [List.range'_zero, List.mapM_nil]
      refine Computes.pure _ (le_iSup_of_le [] ?_)
      refine le_trans ?_ (le_fact_mul ⟨List.map_nil, List.length_nil⟩ _)
      rw [List.append_nil, loopSlots, List.replicate_zero, List.append_nil]
  | succ remaining ih =>
      simp only [List.range'_succ, List.mapM_cons, attributesLoop]
      have apart : ∀ call, call = Allocation.attribute entries.length →
          ¬∃ i ≥ entries.length + 1, call = .attribute i := by
        rintro call rfl ⟨i, later, same⟩
        obtain rfl := Allocation.attribute.inj same
        exact absurd later (Nat.not_succ_le_self _)
      have together : requestsOf (· = .attribute entries.length) ∪
          requestsOf (fun call => ∃ i ≥ entries.length + 1, call = .attribute i) ⊆
          requestsOf fun call => ∃ i ≥ entries.length, call = .attribute i :=
        requestsOf_union_subset (fun _ same => ⟨_, le_rfl, same⟩)
          fun _ ⟨i, later, same⟩ => ⟨i, Nat.le_of_succ_le later, same⟩
      refine Computes.mono (Computes.bind
        (attributesStep_computes data attributesArray entries remaining) (fun _ text => ?_)
        (requestsOf_apart apart)) together
      apply Triple.iSup
      intro pointer
      have rest := ih (entries ++ [(pointer, text)])
      rw [List.length_append, List.length_singleton] at rest
      refine Computes.map rest fun _ texts => ?_
      refine iSup_le fun later part inside => ?_
      rw [fact_mul_apply, List.append_assoc, List.singleton_append] at inside
      obtain ⟨⟨same, count⟩, owned⟩ := inside
      rw [iSup_apply, iSup_Prop_eq]
      refine ⟨(pointer, text) :: later, fact_mul_apply.mpr ⟨⟨?_, ?_⟩, owned⟩⟩
      · rw [List.map_cons, same]
      · rw [List.length_cons, count]

/-- The exit of `parse_attributes` without an array. -/
theorem noAttributes_computes {program : Address} (fields : ProgramFields) :
    Computes Failure.simdjsonError (MayAnswer place programSize)
      (requestsOf fun call => ∃ i ≥ 0, call = .attribute i)
      (fun _ => .ok { length := 0, data := none })
      (fieldsAt program { fields with attributesLength := some 0 } * 1)
      (updateProgram (.target program) fun fields =>
        { fields with attributesData := .null })
      fun _ attributes => ⨆ pointer,
        fieldsAt program { fields with
          attributesLength := some attributes.length, attributesData := pointer } *
        attributesAt pointer attributes := by
  rw [← bind_pure (updateProgram _ _)]
  refine updateProgram_rule rfl ?_
  refine Computes.pure _ (le_iSup_of_le .null ?_)
  have nothing : attributesAt .null { length := 0, data := none } = 1 :=
    Assertion.fact_of rfl
  rw [nothing]

/-- The two fields of the attributes are written, and own what they point to. -/
theorem parseAttributes_computes {program : Address} (fields : ProgramFields)
    (attributesArray : List Element) :
    Computes Failure.simdjsonError (MayAnswer place programSize)
      (requestsOf fun call => call = .attributes ∨ ∃ i, call = .attribute i)
      (fun answers => Parser.parseAttributes (answering platform answers) attributesArray)
      (fieldsAt program fields)
      (parseAttributes place attributesArray (.target program))
      fun _ attributes => ⨆ pointer,
        fieldsAt program { fields with
          attributesLength := some attributes.length, attributesData := pointer } *
        attributesAt pointer attributes := by
  simp only [Parser.parseAttributes, parseAttributes]
  have entries : requestsOf (fun call => ∃ i ≥ 0, call = .attribute i) ⊆
      requestsOf fun call => call = .attributes ∨ ∃ i, call = .attribute i :=
    fun _ ⟨i, _, same⟩ => .inr ⟨i, same⟩
  by_cases empty : arraySize attributesArray = 0
  · simp only [if_pos empty]
    refine updateProgram_rule (mul_one _).symm ?_
    exact (noAttributes_computes fields).mono entries
  · simp only [if_neg empty]
    refine updateProgram_rule (mul_one _).symm ?_
    refine Computes.mono (malloc_computes (by simp [Content.size]) ?_ ?_ ?_)
      (Set.insert_subset (.inl rfl) entries)
    · rintro ⟨i, -, same⟩
      cases same
    · refine updateProgram_rule rfl ?_
      rw [if_pos rfl]
      refine updateProgram_rule rfl ?_
      exact noAttributes_computes { fields with attributesData := .null }
    · intro array
      refine updateProgram_rule (mul_left_comm _ _ _) ?_
      rw [if_neg (by simp)]
      simp only [List.range_eq_range']
      refine Computes.map (attributesLoop_computes rfl attributesArray []
        (arraySize attributesArray)) fun _ texts => ?_
      refine iSup_le fun entries part inside => ?_
      rw [fact_mul_apply, List.nil_append] at inside
      obtain ⟨⟨rfl, count⟩, owned⟩ := inside
      rw [iSup_apply, iSup_Prop_eq]
      refine ⟨.target array, Assertion.mul_apply_mono le_rfl ?_ part owned⟩
      refine le_iSup_of_le entries (le_fact_mul ⟨rfl, ?_⟩ _)
      rw [List.length_map, count]

/-! ## Data -/

/-- One iteration of `parse_data`, as a computation. -/
def wordOf (platform : Parser.Platform) (Felt : Type) [Stark252 Felt]
    (dataArray : List Element) (i : Nat) : Except ErrorCode FeltT := do
  let elem ← arrayAt dataArray i
  let hex ← elem.getCStr
  let num := hexStringToUint64 platform hex
  pure (feltFrom Felt num)

/-- The felts after some iterations: the words, and unwritten slots. -/
def loopFelts (words : List FeltT) (remaining : Nat) : List (Option FeltT) :=
  words.map some ++ List.replicate remaining none

theorem set_loopFelts (words : List FeltT) (remaining : Nat) (word : FeltT) :
    (loopFelts words (remaining + 1)).set words.length (some word) =
      loopFelts (words ++ [word]) remaining := by
  simp [loopFelts, List.replicate_succ]

theorem dataStep_computes {Felt : Type} [Stark252 Felt] {program array : Address}
    {fields : ProgramFields} (data : fields.data = .target array)
    (dataArray : List Element) (words : List FeltT) (remaining : Nat) :
    Computes Failure.simdjsonError (MayAnswer place programSize) ∅
      (fun _ => wordOf platform Felt dataArray words.length)
      (fieldsAt program fields *
        pointsTo array ⟨.dynamic, .felts (loopFelts words (remaining + 1))⟩)
      (dataStep platform Felt dataArray (.target program) words.length)
      fun _ word => fieldsAt program fields *
        pointsTo array ⟨.dynamic, .felts (loopFelts (words ++ [word]) remaining)⟩ := by
  have inside : words.length < (loopFelts words (remaining + 1)).length := by
    simp [loopFelts]
  refine Computes.throwing fun elem _ => Computes.throwing fun hex _ => ?_
  refine Triple.loadAs ((has_fieldsAt _ _).mul_right _) (by rfl) ?_
  rw [data, ← bind_pure (storeFelt _ _ _)]
  refine storeFelt_rule (mul_comm _ _) inside ?_
  rw [set_loopFelts, mul_comm]
  exact Computes.pure _ le_rfl

theorem dataLoop_computes {Felt : Type} [Stark252 Felt] {program array : Address}
    {fields : ProgramFields} (data : fields.data = .target array)
    (dataArray : List Element) (words : List FeltT) (remaining : Nat) :
    Computes Failure.simdjsonError (MayAnswer place programSize) ∅
      (fun _ => (List.range' words.length remaining).mapM (wordOf platform Felt dataArray))
      (fieldsAt program fields *
        pointsTo array ⟨.dynamic, .felts (loopFelts words remaining)⟩)
      (dataLoop platform Felt dataArray (.target program) words.length remaining)
      fun _ later => fieldsAt program fields *
        pointsTo array ⟨.dynamic, .felts ((words ++ later).map some)⟩ := by
  induction remaining generalizing words with
  | zero =>
      simp only [List.range'_zero, List.mapM_nil]
      refine Computes.pure _ ?_
      rw [List.append_nil, loopFelts, List.replicate_zero, List.append_nil]
  | succ remaining ih =>
      simp only [List.range'_succ, List.mapM_cons, dataLoop]
      refine Computes.mono (Computes.bind (dataStep_computes data dataArray words remaining)
        (fun _ word => ?_) fun _ => False.elim) (Set.union_self ∅).subset
      have later := ih (words ++ [word])
      rw [List.length_append, List.length_singleton] at later
      refine Computes.map later fun _ others => ?_
      rw [List.append_assoc, List.singleton_append]

theorem parseData_computes (Felt : Type) [Stark252 Felt] {program : Address}
    (fields : ProgramFields) (dataArray : List Element) :
    Computes Failure.simdjsonError (MayAnswer place programSize)
      (requestsOf (· = .data))
      (fun answers => Parser.parseData (answering platform answers) Felt dataArray)
      (fieldsAt program fields)
      (parseData place platform Felt dataArray (.target program))
      fun _ words => ⨆ pointer,
        fieldsAt program { fields with data := pointer } * dataAt pointer words := by
  simp only [Parser.parseData, parseData]
  refine Computes.mono (malloc_computes (by simp [Content.size]) (Set.notMem_empty _) ?_ ?_)
    (Set.insert_subset rfl (Set.empty_subset _))
  · refine updateProgram_rule (mul_one _).symm ?_
    rw [if_pos rfl]
    exact Computes.pure _ (le_iSup_of_le .null le_rfl)
  · intro array
    refine updateProgram_rule (mul_comm _ _) ?_
    rw [if_neg (by simp)]
    simp only [List.range_eq_range']
    exact Computes.map (dataLoop_computes rfl dataArray [] (arraySize dataArray))
      fun _ words => le_iSup_of_le (.target array) le_rfl

/-! ## The program -/

theorem parseCompilerVersion_computes {program : Address} (fields : ProgramFields)
    (version : CString) :
    Computes Failure.simdjsonError (MayAnswer place programSize)
      (requestsOf (· = .compilerVersion))
      (fun answers => .ok (if answers (.compilerVersion, version.length + 1) then some version
        else none))
      (fieldsAt program fields)
      (parseCompilerVersion place version (.target program))
      fun _ text => ⨆ pointer,
        fieldsAt program { fields with compilerVersion := pointer } *
          stringAt pointer text := by
  have branches : ∀ answer : Bool, (.ok (if answer then some version else none) :
      Except ErrorCode (Option CString)) =
      if answer = false then .ok none else .ok (some version) := by
    intro answer
    cases answer <;> rfl
  simp only [branches]
  refine Computes.mono (malloc_computes (by rfl) (Set.notMem_empty _) ?_ ?_)
    (Set.insert_subset rfl (Set.empty_subset _))
  · refine updateProgram_rule (mul_one _).symm ?_
    rw [if_pos rfl]
    exact Computes.pure _ (le_iSup_of_le .null le_rfl)
  · intro address
    refine updateProgram_rule (mul_comm _ _) ?_
    rw [if_neg (by simp), ← bind_pure (strcpy _ _)]
    refine Triple.call (strcpy_triple le_rfl) (mul_comm _ _) fun _ => ?_
    refine Computes.pure _ (le_iSup_of_le (.target address) ?_)
    rw [mul_comm]

/-- The part of `parse_json_filename` after the compiler version, as a computation. -/
def parseRest (platform : Parser.Platform) (Felt : Type) [Stark252 Felt] (root : Element)
    (attributes : StringArray) (compilerVersion : Option CString) :
    Except ErrorCode Parser.Program := do
  let dataArray ← (← root.atKey "data".toList).getArray
  let data ← Parser.parseData platform Felt dataArray
  pure { attributes, compilerVersion, data }

theorem parseRest_computes (Felt : Type) [Stark252 Felt] (root : Element)
    {program : Address} (fields : ProgramFields) (attributes : StringArray)
    (written : fields.attributesLength = some attributes.length)
    (compilerVersion : Option CString) :
    Computes Failure.simdjsonError (MayAnswer place programSize) (requestsOf (· = .data))
      (fun answers =>
        parseRest (answering platform answers) Felt root attributes compilerVersion)
      (fieldsAt program fields * (stringAt fields.compilerVersion compilerVersion *
        attributesAt fields.attributesData attributes))
      (do
        let dataElement ← accessor (root.atKey "data".toList)
        let dataArray ← accessor dataElement.getArray
        parseData place platform Felt dataArray (.target program))
      fun _ view => programAt program view := by
  simp only [parseRest]
  refine Computes.throwing fun dataElement _ => Computes.throwing fun dataArray _ => ?_
  refine Computes.map ((parseData_computes Felt _ dataArray).frame _) fun _ words => ?_
  rw [Quantale.iSup_mul_distrib]
  refine iSup_le fun dataPointer => ?_
  refine le_iSup_of_le { fields with data := dataPointer }
    (le_trans ?_ (le_fact_mul written _))
  refine le_of_eq ?_
  ac_rfl

/-- The part of `parse_json_filename` after the attributes, as a computation. -/
def parseVersionAndRest (platform : Parser.Platform) (Felt : Type) [Stark252 Felt]
    (root : Element) (attributes : StringArray) : Except ErrorCode Parser.Program := do
  let version ← (← root.atKey "compiler_version".toList).getCStr
  let compilerVersion :=
    if platform.malloc .compilerVersion (version.length + 1) then some version else none
  parseRest platform Felt root attributes compilerVersion

theorem parseVersionAndRest_computes (Felt : Type) [Stark252 Felt] (root : Element)
    {program : Address} (fields : ProgramFields) (attributes : StringArray)
    (written : fields.attributesLength = some attributes.length) :
    Computes Failure.simdjsonError (MayAnswer place programSize)
      (requestsOf (· = .compilerVersion) ∪ requestsOf (· = .data))
      (fun answers => parseVersionAndRest (answering platform answers) Felt root attributes)
      (fieldsAt program fields * attributesAt fields.attributesData attributes)
      (do
        let versionElement ← accessor (root.atKey "compiler_version".toList)
        let version ← accessor versionElement.getCStr
        parseCompilerVersion place version (.target program)
        let dataElement ← accessor (root.atKey "data".toList)
        let dataArray ← accessor dataElement.getArray
        parseData place platform Felt dataArray (.target program))
      fun _ view => programAt program view := by
  have inSequence : ∀ answers,
      parseVersionAndRest (answering platform answers) Felt root attributes = (do
        let versionElement ← root.atKey "compiler_version".toList
        let version ← versionElement.getCStr
        let compilerVersion ← .ok
          (if answers (.compilerVersion, version.length + 1) then some version else none)
        parseRest (answering platform answers) Felt root attributes compilerVersion) :=
    fun _ => rfl
  simp only [inSequence]
  refine Computes.throwing fun versionElement _ => Computes.throwing fun version _ => ?_
  refine Computes.bind ((parseCompilerVersion_computes _ version).frame _)
    (fun _ compilerVersion => ?_) (requestsOf_apart ?_)
  · rw [Quantale.iSup_mul_distrib]
    refine Triple.iSup fun versionPointer => ?_
    rw [mul_assoc]
    exact parseRest_computes Felt root { fields with compilerVersion := versionPointer }
      attributes written compilerVersion
  · rintro call rfl same
    cases same

theorem parseRoot_computes (Felt : Type) [Stark252 Felt] (filename : CString)
    (program : Address) (fields : ProgramFields) :
    Computes Failure.simdjsonError (MayAnswer place programSize)
      (requestsOf (· ≠ .program))
      (fun answers => Parser.parseRoot (answering platform answers) Felt filename)
      (fieldsAt program fields)
      (parseRoot place platform Felt filename (.target program))
      fun _ view => programAt program view := by
  have inSequence : ∀ answers,
      Parser.parseRoot (answering platform answers) Felt filename = (do
        let root ← platform.loadAndParse filename
        let attributesElement ← root.atKey "attributes".toList
        let attributesArray ← attributesElement.getArray
        let attributes ← Parser.parseAttributes (answering platform answers) attributesArray
        parseVersionAndRest (answering platform answers) Felt root attributes) :=
    fun _ => rfl
  simp only [inSequence, parseRoot]
  refine Computes.throwing fun root _ => Computes.throwing fun attributesElement _ =>
    Computes.throwing fun attributesArray _ => ?_
  refine Computes.mono (Computes.bind (parseAttributes_computes fields attributesArray)
    (fun _ attributes => Triple.iSup fun attributesData =>
      parseVersionAndRest_computes Felt root _ attributes rfl) ?_) ?_
  · rintro request isAttribute (isVersion | isData)
    · exact requestsOf_apart (by rintro call (rfl | ⟨i, rfl⟩) same <;> cases same)
        request isAttribute isVersion
    · exact requestsOf_apart (by rintro call (rfl | ⟨i, rfl⟩) same <;> cases same)
        request isAttribute isData
  · rintro ⟨call, size⟩ ((rfl | ⟨i, rfl⟩) | (rfl | rfl)) same <;> cases same

/-- The parser returns a program that owns all it has allocated. -/
theorem parseJsonFilename_computes (Felt : Type) [Stark252 Felt] (filename : CString) :
    Computes id (MayAnswer place programSize) Set.univ
      (fun answers =>
        Parser.parseJsonFilename (answering platform answers) Felt programSize filename) 1
      (parseJsonFilename place platform Felt filename)
      fun pointer view => ⨆ address,
        fact (pointer = .target address) * programAt address view := by
  have wrapped : ∀ answers,
      Parser.parseJsonFilename (answering platform answers) Felt programSize filename =
        if answers (.program, programSize) = false then .error .exitFailure
        else (Parser.parseRoot (answering platform answers) Felt filename).mapError
          Failure.simdjsonError := by
    intro answers
    rw [Parser.parseJsonFilename]
    cases Parser.parseRoot (answering platform answers) Felt filename <;> rfl
  simp only [wrapped]
  have fresh : (.program, programSize) ∉ requestsOf (· ≠ .program) := fun other => other rfl
  refine Computes.mono (malloc_computes (by rfl) fresh ?_ ?_) (Set.subset_univ _)
  · exact fun _ _ _ => ⟨.exitFailure, rfl, Settles.const _ _ _⟩
  · intro address
    rw [if_neg (by simp), mul_one]
    refine Triple.bind (parseRoot_computes Felt filename address .unwritten).mapError
      fun _ => Triple.iSup fun view => Triple.fact fun settles => ?_
    refine Triple.pure _ (le_iSup_of_le view (le_trans ?_ (le_fact_mul settles _)))
    exact le_iSup_of_le address (le_fact_mul rfl _)

end

end CairoVM.Parser.OnHeap
