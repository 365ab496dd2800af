import CairoVM.OnHeap.Parser

/-!
# The life of a parsed program

A parsed program can be read in full, and `free_program` gives back exactly the blocks
that the parser allocated.
-/

namespace CairoVM.Parser.OnHeap

open HeapLogic
open Assertion (pointsTo fact has_pointsTo fact_mul_apply le_fact_mul)

variable {mayStop : Stop Failure → Prop}

/-! ## Reading -/

theorem readString_triple (pointer : Pointer) (text : Option CString) :
    Triple mayStop (stringAt pointer text) (readString pointer)
      fun result => fact (result = text) * stringAt pointer text := by
  cases pointer with
  | null =>
      cases text with
      | none => exact Triple.pure _ (le_fact_mul rfl _)
      | some text => exact Triple.bot
  | indeterminate => exact Triple.bot
  | target address =>
      cases text with
      | none => exact Triple.bot
      | some text =>
          apply Triple.iSup
          intro size
          refine Triple.loadAs (has_pointsTo _ _) (by rfl) ?_
          refine Triple.pure _ (le_trans ?_ (le_fact_mul rfl _))
          exact le_iSup_of_le size le_rfl

theorem readStrings_triple (entries : List Entry) :
    Triple mayStop (entries.map entryAt).prod ((entries.map Prod.fst).mapM readString)
      fun result => fact (result = entries.map Prod.snd) * (entries.map entryAt).prod := by
  induction entries with
  | nil => exact Triple.pure _ (le_fact_mul rfl _)
  | cons entry rest ih =>
      simp only [List.map_cons, List.mapM_cons, List.prod_cons]
      refine Triple.reads (readString_triple entry.1 entry.2) rfl ?_
      refine Triple.reads ih (mul_comm _ _) ?_
      exact Triple.pure _ (le_fact_mul rfl _)

theorem readAttributes_triple (pointer : Pointer) (attributes : StringArray) :
    Triple mayStop (attributesAt pointer attributes) (readAttributes pointer)
      fun result => fact (result = attributes.data) * attributesAt pointer attributes := by
  obtain ⟨length, data⟩ := attributes
  cases pointer with
  | null =>
      cases data with
      | none => exact Triple.pure _ (le_fact_mul rfl _)
      | some texts => exact Triple.bot
  | indeterminate => exact Triple.bot
  | target array =>
      cases data with
      | none => exact Triple.bot
      | some texts =>
          apply Triple.iSup
          intro entries
          apply Triple.fact
          rintro ⟨rfl, count⟩
          refine Triple.loadAs ((has_pointsTo _ _).mul_right _) (by rfl) ?_
          refine Triple.reads (readStrings_triple entries) (mul_comm _ _) ?_
          refine Triple.pure _ (le_trans ?_ (le_fact_mul rfl _))
          exact le_iSup_of_le entries (le_fact_mul ⟨rfl, count⟩ _)

theorem readData_triple (pointer : Pointer) (words : Option (List FeltT)) :
    Triple mayStop (dataAt pointer words) (readData pointer)
      fun result => fact (result = words) * dataAt pointer words := by
  cases pointer with
  | null =>
      cases words with
      | none => exact Triple.pure _ (le_fact_mul rfl _)
      | some words => exact Triple.bot
  | indeterminate => exact Triple.bot
  | target array =>
      cases words with
      | none => exact Triple.bot
      | some words =>
          refine Triple.loadAs (has_pointsTo _ _) (by rfl) ?_
          have written : (words.map some).mapM id = some words := by
            induction words with
            | nil => rfl
            | cons word rest ih => simp [ih]
          rw [written]
          exact Triple.pure _ (le_fact_mul rfl _)

theorem readProgram_triple (address : Address) (program : Parser.Program) :
    Triple mayStop (programAt address program) (readProgram (.target address))
      fun result => fact (result = program) * programAt address program := by
  obtain ⟨attributes, version, words⟩ := program
  apply Triple.iSup
  intro fields
  apply Triple.fact
  intro written
  have versionApart : fieldsAt address fields *
      (attributesAt fields.attributesData attributes *
        (stringAt fields.compilerVersion version * dataAt fields.data words)) =
      stringAt fields.compilerVersion version * (fieldsAt address fields *
        (attributesAt fields.attributesData attributes * dataAt fields.data words)) := by
    ac_rfl
  have wordsApart : fieldsAt address fields * (attributesAt fields.attributesData attributes *
      (stringAt fields.compilerVersion version * dataAt fields.data words)) =
      dataAt fields.data words * (fieldsAt address fields *
        (attributesAt fields.attributesData attributes *
          stringAt fields.compilerVersion version)) := by
    ac_rfl
  refine Triple.loadAs ((has_fieldsAt _ _).mul_right _) (by rfl) ?_
  rw [written]
  refine Triple.reads (readAttributes_triple _ attributes) (mul_left_comm _ _ _) ?_
  refine Triple.reads (readString_triple _ version) versionApart ?_
  refine Triple.reads (readData_triple _ words) wordsApart ?_
  refine Triple.pure _ (le_trans ?_ (le_fact_mul rfl _))
  exact le_iSup_of_le fields (le_fact_mul written _)

/-! ## Freeing -/

theorem free_stringAt_triple (pointer : Pointer) (text : Option CString) :
    Triple mayStop (stringAt pointer text) (free pointer) fun _ => 1 := by
  cases pointer with
  | null =>
      cases text with
      | none => exact Triple.pure _ le_rfl
      | some text => exact Triple.bot
  | indeterminate => exact Triple.bot
  | target address =>
      cases text with
      | none => exact Triple.bot
      | some text =>
          apply Triple.iSup
          intro size
          exact Triple.free_last (mul_one _).symm

theorem free_dataAt_triple (pointer : Pointer) (words : Option (List FeltT)) :
    Triple mayStop (dataAt pointer words) (free pointer) fun _ => 1 := by
  cases pointer with
  | null =>
      cases words with
      | none => exact Triple.pure _ le_rfl
      | some words => exact Triple.bot
  | indeterminate => exact Triple.bot
  | target array =>
      cases words with
      | none => exact Triple.bot
      | some words => exact Triple.free_last (mul_one _).symm

/-- The loop of `free_program` frees the strings of the slots that are left. -/
theorem freeEntries_triple (array : Address) (slots : List Pointer) (done rest : List Entry)
    (same : slots = (done ++ rest).map Prod.fst) :
    Triple mayStop (slotsAt array slots rest)
      (freeEntries (.target array) done.length rest.length)
      fun _ => slotsAt array slots [] := by
  induction rest generalizing done with
  | nil => exact Triple.pure _ le_rfl
  | cons entry rest ih =>
      have found : slots[done.length]? = some entry.1 := by
        simp [same]
      rw [List.length_cons, freeEntries, loadPointer, bind_assoc]
      refine Triple.loadAs ((has_pointsTo _ _).mul_right _) (by rfl) ?_
      rw [found, pure_bind]
      have split : slotsAt array slots (entry :: rest) =
          entryAt entry * slotsAt array slots rest := by
        rw [slotsAt, List.map_cons, List.prod_cons, mul_left_comm, slotsAt]
      refine Triple.call (free_stringAt_triple entry.1 entry.2) split fun _ => ?_
      rw [one_mul]
      have later := ih (done ++ [entry]) (by rw [same, List.append_assoc]; rfl)
      rwa [List.length_append, List.length_singleton] at later

theorem freeAttributes_triple (pointer : Pointer) (attributes : StringArray) :
    Triple mayStop (attributesAt pointer attributes)
      (freeEntries pointer 0 attributes.length >>= fun _ => free pointer) fun _ => 1 := by
  obtain ⟨length, data⟩ := attributes
  cases pointer with
  | null =>
      cases data with
      | none =>
          change Triple _ (fact (length = 0)) _ _
          rw [← mul_one (fact _)]
          apply Triple.fact
          rintro rfl
          exact Triple.pure _ le_rfl
      | some texts => exact Triple.bot
  | indeterminate => exact Triple.bot
  | target array =>
      cases data with
      | none => exact Triple.bot
      | some texts =>
          apply Triple.iSup
          intro entries
          apply Triple.fact
          rintro ⟨rfl, (rfl : length = _)⟩
          rw [List.length_map]
          refine Triple.bind (freeEntries_triple array _ [] entries rfl) fun _ => ?_
          exact Triple.free_last rfl

/-- `free_program` releases the program and everything it owns. -/
theorem freeProgram_triple (address : Address) (program : Parser.Program) :
    Triple mayStop (programAt address program) (freeProgram (.target address))
      fun _ => 1 := by
  obtain ⟨attributes, version, words⟩ := program
  apply Triple.iSup
  intro fields
  apply Triple.fact
  intro written
  refine Triple.loadAs ((has_fieldsAt _ _).mul_right _) (by rfl) ?_
  rw [written]
  simp only
  rw [← bind_assoc]
  refine Triple.call (freeAttributes_triple _ attributes) (mul_left_comm _ _ _) fun _ => ?_
  rw [one_mul]
  refine Triple.call (free_stringAt_triple _ version) (mul_left_comm _ _ _) fun _ => ?_
  rw [one_mul]
  refine Triple.call (free_dataAt_triple _ words) (mul_comm _ _) fun _ => ?_
  rw [one_mul]
  exact Triple.free_last (mul_one _).symm

/-! ## Whole sessions -/

variable {place : HeapLogic.Platform Content} {platform : Parser.Platform}
  {programSize : Nat}

theorem parserSession_triple (Felt : Type) [Stark252 Felt] (filename : CString) :
    Triple
      (Throws id (MayAnswer place programSize) Set.univ fun answers =>
        Parser.parseJsonFilename (answering platform answers) Felt programSize filename)
      1 (parserSession place platform Felt filename)
      fun view => fact (Settles (MayAnswer place programSize) Set.univ
        (fun answers =>
          Parser.parseJsonFilename (answering platform answers) Felt programSize filename)
        (.ok view)) := by
  refine Triple.bind (parseJsonFilename_computes Felt filename) fun pointer => ?_
  refine Triple.iSup fun view => Triple.fact fun settles => Triple.iSup fun address => ?_
  apply Triple.fact
  rintro rfl
  refine Triple.reads (readProgram_triple address view) (mul_one _).symm ?_
  refine Triple.call (freeProgram_triple address view) (mul_one _).symm fun _ => ?_
  refine Triple.pure _ ?_
  rw [Assertion.fact_of settles, mul_one]

/-- The end of a session in terms of the parser on values. -/
def sessionEnd (outcome : Except Failure Parser.Program) (caller : Heap Content) :
    Except (Stop Failure) (Parser.Program × Heap Content) :=
  (outcome.map (·, caller)).mapError Stop.thrown

/-- The requests of a session are answered somehow, and the rest follows. -/
theorem exists_parserSession_eq (place : HeapLogic.Platform Content)
    (platform : Parser.Platform) (programSize : Nat) (Felt : Type) [Stark252 Felt]
    (filename : CString) (caller : Heap Content) :
    ∃ malloc : Allocation → Nat → Bool,
      (∀ call size, MayAnswer place programSize (call, size) (malloc call size)) ∧
      parserSession place platform Felt filename caller =
        sessionEnd (Parser.parseJsonFilename { platform with malloc } Felt programSize
          filename) caller := by
  have session : Triple
      (Throws id (MayAnswer place programSize) Set.univ fun answers =>
        Parser.parseJsonFilename (answering platform answers) Felt programSize filename)
      1 (parserSession place platform Felt filename) _ :=
    parserSession_triple Felt filename
  have start : (1 * Assertion.exactly caller : Assertion Content) caller := by
    rw [one_mul]
    rfl
  have answerable := exists_mayAnswer place programSize
  rcases (session.frame (Assertion.exactly caller)).run start with
    ⟨view, added, returned, -, ⟨settles, rfl⟩⟩ | ⟨_, stopped, failure, rfl, settles⟩
  · obtain ⟨answers, mayAnswer, parsed⟩ := settles.exists_answers answerable
    refine ⟨fun call size => answers (call, size), fun call size => mayAnswer (call, size), ?_⟩
    rw [returned, Finmap.empty_union]
    exact (congrArg (sessionEnd · caller) parsed).symm
  · obtain ⟨answers, mayAnswer, failed⟩ := settles.exists_answers answerable
    refine ⟨fun call size => answers (call, size), fun call size => mayAnswer (call, size), ?_⟩
    rw [stopped]
    exact (congrArg (sessionEnd · caller) failed).symm

/-- From `parse_json_filename` to `free_program`, whatever allocations fail: the session
ends as the parser on values does when some requests are refused, each of which the
allocator refuses in some heap.  A program that is returned can be read in full, and freeing
it restores the caller's heap; otherwise the parser exits or throws.  No access ever leaves a
buffer or an array or goes through an unusable pointer. -/
theorem parserSession_safe (place : HeapLogic.Platform Content)
    (platform : Parser.Platform) (programSize : Nat) (Felt : Type) [Stark252 Felt]
    (filename : CString) (caller : Heap Content) :
    ∃ malloc : Allocation → Nat → Bool,
      (∀ call size, MayAnswer place programSize (call, size) (malloc call size)) ∧
      (Follows place platform programSize → malloc = platform.malloc) ∧
      ((∃ view, parserSession place platform Felt filename caller = .ok (view, caller) ∧
        Parser.parseJsonFilename { platform with malloc } Felt programSize filename =
          .ok view) ∨
      ∃ failure, parserSession place platform Felt filename caller =
          .error (.thrown failure) ∧
        Parser.parseJsonFilename { platform with malloc } Felt programSize filename =
          .error failure) := by
  obtain ⟨malloc, mayAnswer, ended⟩ :=
    exists_parserSession_eq place platform programSize Felt filename caller
  refine ⟨malloc, mayAnswer, fun follows => ?_, ?_⟩
  · funext call size
    exact follows.answer_eq (mayAnswer call size)
  · rw [ended]
    cases Parser.parseJsonFilename { platform with malloc } Felt programSize filename with
    | ok view => exact .inl ⟨view, rfl, rfl⟩
    | error failure => exact .inr ⟨failure, rfl, rfl⟩

/-- The allocator that has blocks of certain sizes only. -/
def sizedPlatform (fits : Nat → Bool) (programSize : Nat) : HeapLogic.Platform Content where
  place heap content :=
    if fits (content.size programSize) then some (nextAddress heap) else none
  place_fresh := by
    intro heap content address placed
    obtain ⟨-, same⟩ := Option.ite_none_right_eq_some.mp placed
    obtain rfl := Option.some.inj same
    exact nextAddress_fresh heap
  placeLocal heap _ := nextAddress heap
  placeLocal_fresh heap _ := nextAddress_fresh heap

/-- Over that allocator, a session on the heap ends as the parser on values does. -/
theorem parserSession_sizedPlatform (fits : Nat → Bool) (platform : Parser.Platform)
    (programSize : Nat) (Felt : Type) [Stark252 Felt] (filename : CString)
    (caller : Heap Content) :
    parserSession (sizedPlatform fits programSize) platform Felt filename caller =
      sessionEnd (Parser.parseJsonFilename { platform with malloc := fun _ => fits } Felt
        programSize filename) caller := by
  obtain ⟨malloc, mayAnswer, ended⟩ := exists_parserSession_eq
    (sizedPlatform fits programSize) platform programSize Felt filename caller
  have sized : malloc = fun _ => fits := by
    funext call size
    obtain ⟨heap, content, rfl, answer⟩ := mayAnswer call size
    rw [← answer]
    cases fit : fits (content.size programSize) <;> simp [sizedPlatform, fit]
  rw [ended, sized]

end CairoVM.Parser.OnHeap
