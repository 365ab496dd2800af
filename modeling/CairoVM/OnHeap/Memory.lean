import CairoVM.OnHeap.Chained
import CairoVM.OnHeap.Table

/-!
# A memory owns what it frees

Each function of `memory.c` is specified by a triple over the blocks of its memory.  A
session from `memory_new` to `memory_free` then answers as the write-once store does and
gives back everything it allocated, except for the key and the value of an entry that
the table could not take.
-/

namespace CairoVM.OnHeap

open HeapLogic WriteOnce
open Assertion (pointsTo fact)

variable {platform : Platform Content} {collections : Collections}

/-- What a triple says about a run that gives back a part of the heap. -/
theorem run_of_triple {Result : Type} {pre : Assertion Content} {program : Prog Result}
    {post : Result → Assertion Content} {heap kept : Heap Content}
    (triple : Triple (AllocationFault platform) pre program
      fun result => post result * Assertion.exactly kept) (start : pre heap) :
    (∃ result added, program heap = .ok (result, added ∪ kept) ∧
      added.Disjoint kept ∧ post result added) ∨
    platform.MayFail ∧
      (program heap = .error (.fault .nullAccess) ∨
        program heap = .error (.fault .indeterminateAccess)) := by
  refine (triple.run start).imp id ?_
  rintro ⟨reason, stopped, mayFail, rfl | rfl⟩
  · exact ⟨mayFail, .inl stopped⟩
  · exact ⟨mayFail, .inr stopped⟩

/-! ## Assertions about a memory -/

/-- The blocks of a memory with the contents of a store. -/
def memoryAt (mem : HeapMemory) (store : CellStore) : Assertion Content :=
  ⨆ layout : Address × List Cell,
    fact (mem = ⟨store.numSegments, .target layout.1⟩ ∧ Holds layout.2 store.contents) *
      tableAt layout.1 layout.2

theorem tableAt_le_memoryAt {table : Address} {cells : List Cell} {numSegments : UInt32}
    {contents : Contents Relocatable MaybeRelocatable} (holds : Holds cells contents) :
    tableAt table cells ≤
      memoryAt ⟨numSegments, .target table⟩ ⟨numSegments, contents⟩ := by
  refine le_iSup_of_le (table, cells) ?_
  rw [Assertion.fact_of ⟨rfl, holds⟩, one_mul]

theorem memoryAt_addSegment {mem : HeapMemory} {store : CellStore} (part : Heap Content)
    (inside : memoryAt mem store part) :
    mem.numSegments = store.numSegments ∧
      memoryAt (memoryAddSegment mem).2
        { store with numSegments := store.numSegments + 1 } part := by
  obtain ⟨⟨table, cells⟩, ⟨rfl, holds⟩, owned⟩ := Assertion.iSup_fact_mul_apply.mp inside
  exact ⟨rfl, tableAt_le_memoryAt holds part owned⟩

/-- At most two blocks for each of some refused writes.  There are none unless the
table may refuse an entry. -/
def leaked (collections : Collections) (refusals : Nat) : Assertion Content := fun part =>
  part.keys.card ≤ 2 * refusals ∧ (¬collections.MayRefuse → part = ∅)

@[simp] theorem leaked_zero : leaked collections 0 = 1 := by
  funext part
  apply propext
  constructor
  · rintro ⟨none, -⟩
    apply Finmap.ext_lookup
    intro address
    rw [Finmap.lookup_empty, Finmap.lookup_eq_none, ← Finmap.mem_keys,
      Finset.card_eq_zero.mp (Nat.le_zero.mp none)]
    exact Finset.notMem_empty address
  · rintro rfl
    exact ⟨by simp, fun _ => rfl⟩

theorem one_le_leaked (refusals : Nat) : 1 ≤ leaked collections refusals := by
  rintro part rfl
  exact ⟨by simp, fun _ => rfl⟩

theorem le_mul_leaked (owned : Assertion Content) (refusals : Nat) :
    owned ≤ owned * leaked collections refusals :=
  le_mul_of_one_le_right' (one_le_leaked refusals)

theorem leaked_mono {few many : Nat} (bound : few ≤ many) :
    leaked collections few ≤ leaked collections many :=
  fun _ inside => ⟨inside.1.trans (Nat.mul_le_mul_left 2 bound), inside.2⟩

theorem leaked_mul_le (first second : Nat) :
    leaked collections first * leaked collections second ≤
      leaked collections (first + second) := by
  rintro part ⟨left, right, -, rfl, ⟨fewLeft, noneLeft⟩, ⟨fewRight, noneRight⟩⟩
  constructor
  · rw [Finmap.keys_union]
    have atMost := Finset.card_union_le left.keys right.keys
    omega
  · intro reliable
    rw [noneLeft reliable, noneRight reliable, Finmap.union_empty]

theorem owned_le_leaked (mayRefuse : collections.MayRefuse) (cell : Cell) :
    cell.owned ≤ leaked collections 1 := by
  rintro part ⟨_, _, -, rfl, rfl, rfl⟩
  constructor
  · rw [Finmap.keys_union, Finmap.keys_singleton, Finmap.keys_singleton]
    exact Finset.card_le_two
  · exact fun reliable => absurd mayRefuse reliable

/-- The outcome of some attempted writes. -/
def attempted (collections : Collections) (mem : HeapMemory) (store : CellStore)
    (writes : List (Relocatable × MaybeRelocatable)) (verdict : Bool) :
    Assertion Content :=
  ⨆ contents, fact (Attempted (Created store.numSegments) collections.MayRefuse
      store.contents writes verdict contents) *
    (memoryAt mem { store with contents } * leaked collections (if verdict then 0 else 1))

/-- Returning from attempted writes, with or without a leak. -/
theorem memoryAt_le_attempted {mem : HeapMemory} {store : CellStore}
    {writes : List (Relocatable × MaybeRelocatable)} {verdict : Bool}
    {contents : Contents Relocatable MaybeRelocatable}
    (performed : Attempted (Created store.numSegments) collections.MayRefuse
      store.contents writes verdict contents) :
    memoryAt mem { store with contents } * leaked collections (if verdict then 0 else 1) ≤
      attempted collections mem store writes verdict := by
  refine le_iSup_of_le contents ?_
  rw [Assertion.fact_of performed, one_mul]

/-! ## What writes return -/

/-- What an insert returns. -/
def insertResult (verdict : Bool) : Except MemoryError Unit :=
  if verdict then .ok () else .error .insert

theorem isOk_insertResult (verdict : Bool) : (insertResult verdict).isOk = verdict := by
  cases verdict <;> rfl

/-- Returning from an insert. -/
theorem insertResult_triple {owned : Assertion Content} {mem : HeapMemory}
    {store : CellStore} {ptr : Relocatable} {value : MaybeRelocatable} {verdict : Bool}
    {contents : Contents Relocatable MaybeRelocatable}
    (performed : Attempted (Created store.numSegments) collections.MayRefuse
      store.contents [(ptr, value)] verdict contents)
    (entails : owned ≤ memoryAt mem { store with contents } *
      leaked collections (if verdict then 0 else 1)) :
    Triple (AllocationFault platform) owned (pure (insertResult verdict) : Prog _)
      fun result => fact (result = insertResult result.isOk) *
        attempted collections mem store [(ptr, value)] result.isOk := by
  apply Triple.pure
  rw [isOk_insertResult, Assertion.fact_of rfl, one_mul]
  exact entails.trans (memoryAt_le_attempted performed)

/-- What a load returns. -/
def loadResult (endPtr : Relocatable) (verdict : Bool) : Except MemoryError Relocatable :=
  if verdict then .ok endPtr else .error .loadData

theorem isOk_loadResult (endPtr : Relocatable) (verdict : Bool) :
    (loadResult endPtr verdict).isOk = verdict := by
  cases verdict <;> rfl

/-- An accepted write, followed by others. -/
theorem attempted_le_cons {mem : HeapMemory} {store : CellStore}
    {write : Relocatable × MaybeRelocatable}
    {writes : List (Relocatable × MaybeRelocatable)} {verdict : Bool}
    (accepted : Accepts (Created store.numSegments) store.contents write) :
    attempted collections mem { store with contents := put store.contents write } writes
      verdict ≤ attempted collections mem store (write :: writes) verdict := by
  refine iSup_le fun contents part inside => ?_
  rw [Assertion.fact_mul_apply] at inside
  exact memoryAt_le_attempted (.accept accepted inside.1) part inside.2

/-- Returning from a load. -/
theorem loadResult_triple {owned kept : Assertion Content} {mem : HeapMemory}
    {store : CellStore} {ptr : Relocatable} {values : List MaybeRelocatable}
    {verdict : Bool} {contents : Contents Relocatable MaybeRelocatable}
    (performed : Attempted (Created store.numSegments) collections.MayRefuse
      store.contents (loadWrites ptr values) verdict contents)
    (entails : owned ≤ memoryAt mem { store with contents } *
      leaked collections (if verdict then 0 else 1) * kept) :
    Triple (AllocationFault platform) owned
      (pure (loadResult (ptr.advance values.length) verdict) : Prog _)
      fun result =>
        fact (result = loadResult (ptr.advance values.length) result.isOk) *
          (attempted collections mem store (loadWrites ptr values) result.isOk * kept) := by
  apply Triple.pure
  rw [isOk_loadResult, Assertion.fact_of rfl, one_mul]
  exact entails.trans
    (Assertion.mul_apply_mono (memoryAt_le_attempted performed) le_rfl)

/-! ## The functions of the memory -/

variable [LawfulCollections platform collections memoryConf]

theorem memoryNew_triple :
    Triple (AllocationFault platform) 1 (memoryNew collections)
      fun mem => memoryAt mem .empty ⊔
        fact (platform.MayFail ∧ mem.data = .indeterminate) := by
  refine made_rule (LawfulCollections.newConf .indeterminate) ?_ ?_
  · intro table
    rw [mul_one, ← tableAt_nil]
    exact Triple.pure _ (le_sup_of_le_left (tableAt_le_memoryAt holds_nil))
  · intro mayFail _
    refine Triple.pure _ (le_sup_of_le_right ?_)
    rw [Assertion.fact_of ⟨mayFail, rfl⟩]

theorem memoryGet_triple (mem : HeapMemory) (store : CellStore) (ptr : Relocatable) :
    Triple (AllocationFault platform) (memoryAt mem store) (memoryGet collections mem ptr)
      fun result => fact (result = (store.contents ptr).elim (.error .get) .ok) *
        memoryAt mem store := by
  apply Triple.iSup
  rintro ⟨table, cells⟩
  apply Triple.fact
  rintro ⟨rfl, holds⟩
  apply ccHashtableGet_rule
  · intro cell member same
    refine Triple.loadAs (has_tableAt member) (by rfl) ?_
    have present : store.contents ptr = some cell.value :=
      (holds ptr cell.value).mpr ⟨cell, member, same, rfl⟩
    apply Triple.pure
    rw [present, Option.elim_some, Assertion.fact_of rfl, one_mul]
    exact tableAt_le_memoryAt holds
  · intro absent
    apply Triple.pure
    rw [holds.eq_none_iff.mpr absent, Option.elim_none, Assertion.fact_of rfl, one_mul]
    exact tableAt_le_memoryAt holds

/-- An insert is one attempted write. -/
theorem memoryInsert_triple (mem : HeapMemory) (store : CellStore) (ptr : Relocatable)
    (value : MaybeRelocatable) :
    Triple (AllocationFault platform) (memoryAt mem store)
      (memoryInsert platform collections mem ptr value)
      fun result => fact (result = insertResult result.isOk) *
        attempted collections mem store [(ptr, value)] result.isOk := by
  apply Triple.iSup
  rintro ⟨table, cells⟩
  apply Triple.fact
  rintro ⟨rfl, holds⟩
  dsimp only at holds
  have unchanged : tableAt table cells ≤
      memoryAt ⟨store.numSegments, .target table⟩ store * leaked collections 1 :=
    (tableAt_le_memoryAt holds).trans (le_mul_leaked _ 1)
  rw [memoryInsert]
  split
  · rename_i outside
    have refused : ¬Created store.numSegments ptr := UInt32.not_lt.mpr outside
    exact insertResult_triple (.refuse fun accepted => absurd accepted.1 refused) unchanged
  · rename_i inside
    have created : Created store.numSegments ptr := UInt32.not_le.mp inside
    apply ccHashtableGet_rule
    · intro cell member same
      have present : store.contents ptr = some cell.value :=
        (holds ptr cell.value).mpr ⟨cell, member, same, rfl⟩
      refine Triple.loadAs (has_tableAt member) (by rfl) ?_
      dsimp only
      split
      · rename_i equal
        rw [maybeRelocatableEqual_iff] at equal
        have recorded : put store.contents (ptr, value) = store.contents :=
          put_of_eq_some (equal ▸ present)
        have agrees : Agrees store.contents (ptr, value) :=
          fun held found => (Option.some.inj (present.symm.trans found)).symm.trans equal
        refine insertResult_triple (.accept ⟨created, agrees⟩ (.done _)) ?_
        rw [recorded, if_pos rfl, leaked_zero, mul_one]
        exact tableAt_le_memoryAt holds
      · rename_i different
        rw [maybeRelocatableEqual_iff] at different
        refine insertResult_triple (.refuse fun accepted => ?_) unchanged
        exact absurd (accepted.2 cell.value present) different
    · intro absent
      have empty := holds.eq_none_iff.mpr absent
      apply Triple.malloc
      · exact fun mayFail => Triple.store_null ⟨mayFail, .inl rfl⟩
      intro keyAddress
      refine Triple.store rfl ?_
      apply Triple.malloc
      · exact fun mayFail => Triple.store_null ⟨mayFail, .inl rfl⟩
      intro valueAddress
      refine Triple.store rfl ?_
      let cell : Cell := ⟨keyAddress, valueAddress, ptr, value⟩
      have split : pointsTo valueAddress ⟨.dynamic, .maybeRelocatable value⟩ *
          (pointsTo keyAddress ⟨.dynamic, .relocatable ptr⟩ * tableAt table cells) =
          tableAt table cells * cell.owned := by
        change _ = tableAt table cells * (pointsTo keyAddress _ * pointsTo valueAddress _)
        ac_rfl
      rw [split]
      refine ccHashtableAdd_rule absent ?_ ?_
      · intro entries perm
        rw [if_pos rfl]
        refine insertResult_triple (.accept ⟨created, agrees_of_none empty⟩ (.done _)) ?_
        rw [if_pos rfl, leaked_zero, mul_one]
        exact tableAt_le_memoryAt ((holds.cons cell empty).perm perm)
      · intro stat refused mayRefuse entries perm
        rw [if_neg refused]
        refine insertResult_triple (.refuse fun _ => ⟨mayRefuse, empty⟩) ?_
        exact Assertion.mul_apply_mono (tableAt_le_memoryAt (holds.perm perm))
          (owned_le_leaked mayRefuse cell)

/-! ### Loads -/

/-- The pointer designates a value in the owned part. -/
def Denotes (kept : Assertion Content) (pointer : Pointer) (value : MaybeRelocatable) :
    Prop :=
  ∃ address storage, pointer = .target address ∧
    kept.Has address ⟨storage, .maybeRelocatable value⟩

/-- The pointer designates an array of values in the owned part. -/
def DenotesArray (kept : Assertion Content) (pointer : Pointer)
    (values : List MaybeRelocatable) : Prop :=
  ∃ address storage elements, pointer = .target address ∧
    kept.Has address ⟨storage, .array elements⟩ ∧
    List.Forall₂ (Denotes kept) elements values

/-- The loop attempts the writes of its elements in order. -/
theorem loadElements_triple {kept : Assertion Content} (mem : HeapMemory)
    (store : CellStore) (ptr : Relocatable) {elements : List Pointer}
    {values : List MaybeRelocatable}
    (denoted : List.Forall₂ (Denotes kept) elements values) :
    Triple (AllocationFault platform) (memoryAt mem store * kept)
      (loadElements platform collections mem ptr elements)
      fun result =>
        fact (result = loadResult (ptr.advance values.length) result.isOk) *
          (attempted collections mem store (loadWrites ptr values) result.isOk * kept) := by
  induction denoted generalizing store ptr with
  | nil =>
      have returned : (.ok ptr : Except MemoryError Relocatable) =
          loadResult (ptr.advance ([] : List MaybeRelocatable).length) true := by
        simp [loadResult]
      rw [loadElements, returned]
      apply loadResult_triple (.done _)
      rw [if_pos rfl, leaked_zero, mul_one]
  | @cons element value elements values head rest ih =>
      obtain ⟨address, storage, rfl, has⟩ := head
      refine Triple.loadAs (has.mul_left _) (by rfl) ?_
      refine Triple.call (memoryInsert_triple mem store ptr value) rfl ?_
      intro result
      rw [mul_assoc]
      apply Triple.fact
      intro returned
      obtain ⟨verdict, rfl⟩ : ∃ verdict, result = insertResult verdict := ⟨_, returned⟩
      rw [isOk_insertResult, attempted, Quantale.iSup_mul_distrib]
      apply Triple.iSup
      intro contents
      rw [mul_assoc]
      apply Triple.fact
      intro performed
      cases performed with
      | accept accepted later =>
          cases later
          rw [if_pos rfl, leaked_zero, mul_one, List.length_cons, Relocatable.advance_succ]
          refine (ih { store with contents := put store.contents (ptr, value) }
            { ptr with offset := ptr.offset + 1 }).consequence le_rfl fun result => ?_
          refine Assertion.mul_apply_mono le_rfl (Assertion.mul_apply_mono ?_ le_rfl)
          exact attempted_le_cons accepted
      | refuse refused => exact loadResult_triple (.refuse refused) le_rfl

/-- An array is read where it is. -/
theorem ccArrayIter_rule {Result : Type} {owned : Assertion Content} {array : Address}
    {storage : Storage} {elements : List Pointer}
    (has : owned.Has array ⟨storage, .array elements⟩) {next : List Pointer → Prog Result}
    {post : Result → Assertion Content}
    (goOn : Triple (AllocationFault platform) owned (next elements) post) :
    Triple (AllocationFault platform) owned
      (collections.ccArrayIter (.target array) >>= next) post := by
  have visits : Safe (arrayAt array storage elements)
      (collections.ccArrayIter (.target array))
      fun visited => fact (visited = elements) * arrayAt array storage elements :=
    LawfulCollections.arrayIter platform memoryConf array storage elements
  refine Triple.bind (Triple.of_has has (Triple.of_safe visits)) fun visited => ?_
  apply Triple.fact
  rintro rfl
  exact goOn

theorem memoryLoadData_triple {kept : Assertion Content} (mem : HeapMemory)
    (store : CellStore) (ptr : Relocatable) {data : Pointer}
    {values : List MaybeRelocatable} (array : DenotesArray kept data values) :
    Triple (AllocationFault platform) (memoryAt mem store * kept)
      (memoryLoadData platform collections mem ptr data)
      fun result =>
        fact (result = loadResult (ptr.advance values.length) result.isOk) *
          (attempted collections mem store (loadWrites ptr values) result.isOk * kept) := by
  obtain ⟨address, storage, elements, rfl, array, denoted⟩ := array
  exact ccArrayIter_rule (array.mul_left _) (loadElements_triple mem store ptr denoted)

/-! ### The end of a memory -/

/-- The loop of `memory_free` releases the blocks of the cells. -/
theorem releaseEntries_triple (cells : List Cell) :
    Triple (AllocationFault platform) (cells.map Cell.owned).prod
      (((cells.map Cell.keyed).map KeyedEntry.entry).forM fun entry => do
        free entry.value
        free entry.key)
      fun _ => 1 := by
  have each : ∀ cell ∈ cells, Triple (AllocationFault platform) cell.owned
      (do
        free cell.keyed.entry.value
        free cell.keyed.entry.key)
      fun _ => 1 := by
    intro cell _
    rw [Cell.owned, mul_comm]
    refine Triple.free rfl ?_
    exact Triple.free_last (mul_one _).symm
  have loop := Triple.forM each
  rw [List.forM_eq_forM, List.forM_map, List.forM_map]
  refine loop.consequence le_rfl fun _ => ?_
  simp

/-- All blocks of the memory are freed, each of them once. -/
theorem memoryFree_triple (mem : HeapMemory) (store : CellStore) :
    Triple (AllocationFault platform) (memoryAt mem store) (memoryFree collections mem)
      fun _ => 1 := by
  apply Triple.iSup
  rintro ⟨table, cells⟩
  apply Triple.fact
  rintro ⟨rfl, holds⟩
  rw [tableAt_eq]
  refine Triple.call (Triple.of_safe (LawfulCollections.iter platform memoryConf table _)) rfl
    fun visited => ?_
  rw [mul_assoc]
  apply Triple.fact
  intro perm
  rw [List.map_map] at perm
  obtain ⟨others, reordered, rfl⟩ := exists_map_of_perm perm
  rw [← (reordered.map Cell.owned).prod_eq, mul_comm, ← List.map_map]
  refine Triple.call (releaseEntries_triple others) rfl fun _ => ?_
  rw [one_mul]
  refine Triple.bind (Triple.of_safe
    (LawfulCollections.removeAll platform memoryConf table _)) fun _ => ?_
  exact Triple.of_safe (LawfulCollections.destroy platform memoryConf table _)

/-! ## Sessions -/

/-- The value behind a pointer. -/
def readValue (heap : Heap Content) : Pointer → Option MaybeRelocatable
  | .target address => (heap.lookup address).bind fun block => block.content.maybeRelocatable?
  | _ => none

/-- The values behind an array of pointers. -/
def readArray (heap : Heap Content) : Pointer → Option (List MaybeRelocatable)
  | .target address =>
      (heap.lookup address).bind fun block =>
        block.content.array?.bind fun elements => elements.mapM (readValue heap)
  | _ => none

/-- The call that a call with pointers means in the heap of the caller. -/
def resolveCall (heap : Heap Content) : MemoryCall Pointer → Option (MemoryCall Values)
  | .addSegment => some .addSegment
  | .insert ptr value => some (.insert ptr value)
  | .get ptr => some (.get ptr)
  | .loadData ptr data => (readArray heap data).map (.loadData ptr)

theorem denotes_of_readValue {heap : Heap Content} {pointer : Pointer}
    {value : MaybeRelocatable} (found : readValue heap pointer = some value) :
    Denotes (Assertion.exactly heap) pointer value := by
  cases pointer with
  | null => cases found
  | indeterminate => cases found
  | target address =>
      obtain ⟨⟨storage, content⟩, present, isValue⟩ := Option.bind_eq_some_iff.mp found
      cases content <;> cases isValue
      exact ⟨address, storage, rfl, Assertion.has_exactly present⟩

theorem denotes_of_mapM {heap : Heap Content} {elements : List Pointer}
    {values : List MaybeRelocatable}
    (found : elements.mapM (readValue heap) = some values) :
    List.Forall₂ (Denotes (Assertion.exactly heap)) elements values := by
  induction elements generalizing values with
  | nil =>
      cases found
      exact .nil
  | cons element rest ih =>
      obtain ⟨value, first, values, others, rfl⟩ := Failing.mapM_cons_eq_some_iff.mp found
      exact .cons (denotes_of_readValue first) (ih others)

theorem denotesArray_of_readArray {heap : Heap Content} {data : Pointer}
    {values : List MaybeRelocatable} (found : readArray heap data = some values) :
    DenotesArray (Assertion.exactly heap) data values := by
  cases data with
  | null => cases found
  | indeterminate => cases found
  | target address =>
      obtain ⟨⟨storage, content⟩, present, isArray⟩ := Option.bind_eq_some_iff.mp found
      obtain ⟨elements, selected, read⟩ := Option.bind_eq_some_iff.mp isArray
      cases content <;> cases selected
      exact ⟨address, storage, elements, rfl, Assertion.has_exactly present,
        denotes_of_mapM read⟩

/-- What the response to a call leaves behind. -/
def answered (collections : Collections) (store : CellStore) (call : MemoryCall Values)
    (outcome : MemoryResponse × HeapMemory) : Assertion Content :=
  ⨆ after, fact (store.Performs collections.MayRefuse call outcome.1 after) *
    (memoryAt outcome.2 after *
      leaked collections (if outcome.1.refused then 1 else 0))

theorem le_answered {owned : Assertion Content} {store after : CellStore}
    {call : MemoryCall Values} {outcome : MemoryResponse × HeapMemory}
    (performs : store.Performs collections.MayRefuse call outcome.1 after)
    (entails : owned ≤ memoryAt outcome.2 after *
      leaked collections (if outcome.1.refused then 1 else 0)) :
    owned ≤ answered collections store call outcome := by
  refine le_iSup_of_le after ?_
  rwa [Assertion.fact_of performs, one_mul]

theorem attempted_le_answered {mem : HeapMemory} {store : CellStore} {call : MemoryCall Values}
    {writes : List (Relocatable × MaybeRelocatable)} {verdict : Bool}
    {response : MemoryResponse} (refused : response.refused = !verdict)
    (performs : ∀ contents, Attempted (Created store.numSegments) collections.MayRefuse
      store.contents writes verdict contents →
      store.Performs collections.MayRefuse call response { store with contents }) :
    attempted collections mem store writes verdict ≤
      answered collections store call (response, mem) := by
  refine iSup_le fun contents part inside => ?_
  rw [Assertion.fact_mul_apply] at inside
  refine le_answered (performs contents inside.1) ?_ part inside.2
  rw [refused]
  cases verdict <;> exact le_rfl

theorem memoryPerform_triple {caller : Heap Content} (mem : HeapMemory)
    (store : CellStore) {heapCall : MemoryCall Pointer} {call : MemoryCall Values}
    (resolved : resolveCall caller heapCall = some call) :
    Triple (AllocationFault platform) (memoryAt mem store * Assertion.exactly caller)
      (memoryPerform platform collections mem heapCall)
      fun outcome => answered collections store call outcome *
        Assertion.exactly caller := by
  cases heapCall with
  | addSegment =>
      obtain rfl := Option.some.inj resolved
      apply Triple.pure
      refine Assertion.mul_apply_mono (fun part inside => ?_) le_rfl
      obtain ⟨counted, grown⟩ := memoryAt_addSegment part inside
      have performs : store.Performs collections.MayRefuse .addSegment
          (.segment ⟨mem.numSegments, 0⟩)
          { store with numSegments := store.numSegments + 1 } := by
        rw [counted]
        exact .addSegment store
      refine le_answered performs ?_ part grown
      rw [MemoryResponse.refused, if_neg Bool.false_ne_true, leaked_zero, mul_one]
      exact le_rfl
  | get ptr =>
      obtain rfl := Option.some.inj resolved
      refine Triple.call (memoryGet_triple mem store ptr) rfl fun result => ?_
      rw [mul_assoc]
      apply Triple.fact
      rintro rfl
      apply Triple.pure
      refine Assertion.mul_apply_mono (le_answered (.get store ptr) ?_) le_rfl
      rw [MemoryResponse.refused, if_neg Bool.false_ne_true, leaked_zero, mul_one]
  | insert ptr value =>
      obtain rfl := Option.some.inj resolved
      refine Triple.call (memoryInsert_triple mem store ptr value) rfl fun result => ?_
      rw [mul_assoc]
      apply Triple.fact
      intro returned
      obtain ⟨verdict, rfl⟩ : ∃ verdict, result = insertResult verdict := ⟨_, returned⟩
      rw [isOk_insertResult]
      apply Triple.pure
      refine Assertion.mul_apply_mono (attempted_le_answered ?_ ?_) le_rfl
      · rw [MemoryResponse.refused, WriteResult.refused, isOk_insertResult]
      · exact fun contents performed => .insert performed
  | loadData ptr data =>
      obtain ⟨values, read, rfl⟩ := Option.map_eq_some_iff.mp resolved
      refine Triple.bind (memoryLoadData_triple mem store ptr
        (denotesArray_of_readArray read)) fun result => ?_
      apply Triple.fact
      intro returned
      obtain ⟨verdict, rfl⟩ : ∃ verdict,
          result = loadResult (ptr.advance values.length) verdict := ⟨_, returned⟩
      rw [isOk_loadResult]
      apply Triple.pure
      refine Assertion.mul_apply_mono (attempted_le_answered ?_ ?_) le_rfl
      · rw [MemoryResponse.refused, WriteResult.refused, isOk_loadResult]
      · exact fun contents performed => .loadData performed

/-- What the responses to some calls leave behind. -/
def responded (collections : Collections) (store : CellStore)
    (calls : List (MemoryCall Values)) (outcome : List MemoryResponse × HeapMemory) :
    Assertion Content :=
  ⨆ after, fact (store.Runs collections.MayRefuse calls outcome.1 after) *
    (memoryAt outcome.2 after *
      leaked collections (outcome.1.countP MemoryResponse.refused))

theorem responded_mul_leaked_le {store after : CellStore} {call : MemoryCall Values}
    {calls : List (MemoryCall Values)} {response : MemoryResponse}
    (performs : store.Performs collections.MayRefuse call response after)
    (responses : List MemoryResponse) (mem : HeapMemory) :
    responded collections after calls (responses, mem) *
        leaked collections (if response.refused then 1 else 0) ≤
      responded collections store (call :: calls) (response :: responses, mem) := by
  rw [responded, Quantale.iSup_mul_distrib]
  refine iSup_le fun final part inside => ?_
  rw [mul_assoc, Assertion.fact_mul_apply, mul_assoc] at inside
  obtain ⟨runs, owned⟩ := inside
  have returned : memoryAt mem final *
      (leaked collections (responses.countP MemoryResponse.refused) *
        leaked collections (if response.refused then 1 else 0)) ≤
      responded collections store (call :: calls) (response :: responses, mem) := by
    refine le_iSup_of_le final ?_
    rw [Assertion.fact_of (.cons performs runs), one_mul, List.countP_cons]
    exact Assertion.mul_apply_mono le_rfl (leaked_mul_le _ _)
  exact returned part owned

theorem performAll_triple {caller : Heap Content} (mem : HeapMemory) (store : CellStore)
    {heapCalls : List (MemoryCall Pointer)} {calls : List (MemoryCall Values)}
    (resolved : heapCalls.mapM (resolveCall caller) = some calls) :
    Triple (AllocationFault platform) (memoryAt mem store * Assertion.exactly caller)
      (performAll platform collections mem heapCalls)
      fun outcome => responded collections store calls outcome *
        Assertion.exactly caller := by
  induction heapCalls generalizing mem store calls with
  | nil =>
      cases resolved
      apply Triple.pure
      refine Assertion.mul_apply_mono (le_iSup_of_le store ?_) le_rfl
      rw [Assertion.fact_of (.nil store), one_mul, List.countP_nil, leaked_zero, mul_one]
  | cons heapCall rest ih =>
      obtain ⟨call, first, calls, others, rfl⟩ := Failing.mapM_cons_eq_some_iff.mp resolved
      refine Triple.bind (memoryPerform_triple mem store first) ?_
      rintro ⟨response, mem⟩
      rw [answered, Quantale.iSup_mul_distrib]
      apply Triple.iSup
      intro after
      rw [mul_assoc]
      apply Triple.fact
      intro performs
      refine Triple.call (ih mem after others) (mul_right_comm _ _ _) ?_
      rintro ⟨responses, mem⟩
      apply Triple.pure
      rw [mul_right_comm]
      exact Assertion.mul_apply_mono (responded_mul_leaked_le performs responses mem) le_rfl

/-! ### A memory without a table -/

section Unallocated

variable {owned : Assertion Content} {mem : HeapMemory} (mayFail : platform.MayFail)
  (unallocated : mem.data = .indeterminate)
include mayFail unallocated

theorem memoryInsert_unallocated (ptr : Relocatable) (value : MaybeRelocatable) :
    Triple (AllocationFault platform) owned
      (memoryInsert platform collections mem ptr value)
      fun result => fact (result = .error .insert) * owned := by
  rw [memoryInsert]
  split
  · apply Triple.pure
    rw [Assertion.fact_of rfl, one_mul]
  · rw [unallocated, LawfulCollections.get_indeterminate platform memoryConf]
    exact Triple.stop ⟨mayFail, .inr rfl⟩

theorem memoryLoadData_unallocated {ptr : Relocatable} {data : Pointer}
    {values : List MaybeRelocatable} (array : DenotesArray owned data values) :
    Triple (AllocationFault platform) owned
      (memoryLoadData platform collections mem ptr data) fun _ => owned := by
  obtain ⟨address, storage, elements, rfl, hasArray, denoted⟩ := array
  refine ccArrayIter_rule hasArray ?_
  cases denoted with
  | nil => exact Triple.pure _ le_rfl
  | cons head rest =>
      obtain ⟨element, storage, rfl, hasValue⟩ := head
      rw [loadElements]
      refine Triple.loadAs hasValue (by rfl) ?_
      refine Triple.bind (memoryInsert_unallocated mayFail unallocated ptr _) ?_
      intro result
      apply Triple.fact
      rintro rfl
      exact Triple.pure _ le_rfl

theorem memoryPerform_unallocated {caller : Heap Content} {heapCall : MemoryCall Pointer}
    {call : MemoryCall Values} (resolved : resolveCall caller heapCall = some call) :
    Triple (AllocationFault platform) (Assertion.exactly caller)
      (memoryPerform platform collections mem heapCall)
      fun outcome => fact (outcome.2.data = .indeterminate) *
        Assertion.exactly caller := by
  cases heapCall with
  | addSegment =>
      apply Triple.pure
      rw [Assertion.fact_of unallocated, one_mul]
  | get ptr =>
      rw [memoryPerform, memoryGet, unallocated,
        LawfulCollections.get_indeterminate platform memoryConf, bind_assoc]
      exact Triple.stop ⟨mayFail, .inr rfl⟩
  | insert ptr value =>
      refine Triple.bind (memoryInsert_unallocated mayFail unallocated ptr value) ?_
      intro result
      apply Triple.fact
      rintro rfl
      apply Triple.pure
      rw [Assertion.fact_of unallocated, one_mul]
  | loadData ptr data =>
      obtain ⟨values, read, rfl⟩ := Option.map_eq_some_iff.mp resolved
      refine Triple.bind (memoryLoadData_unallocated mayFail unallocated
        (denotesArray_of_readArray read)) fun result => ?_
      apply Triple.pure
      rw [Assertion.fact_of unallocated, one_mul]

theorem performAll_unallocated {caller : Heap Content} {heapCalls : List (MemoryCall Pointer)}
    {calls : List (MemoryCall Values)}
    (resolved : heapCalls.mapM (resolveCall caller) = some calls) :
    Triple (AllocationFault platform) (Assertion.exactly caller)
      (performAll platform collections mem heapCalls)
      fun outcome => fact (outcome.2.data = .indeterminate) *
        Assertion.exactly caller := by
  induction heapCalls generalizing mem calls with
  | nil =>
      apply Triple.pure
      rw [Assertion.fact_of unallocated, one_mul]
  | cons heapCall rest ih =>
      obtain ⟨call, first, calls, others, rfl⟩ := Failing.mapM_cons_eq_some_iff.mp resolved
      refine Triple.bind (memoryPerform_unallocated mayFail unallocated first) ?_
      rintro ⟨response, mem⟩
      apply Triple.fact
      intro still
      refine Triple.bind (ih still others) ?_
      rintro ⟨responses, mem⟩
      exact Triple.pure _ le_rfl

end Unallocated

/-! ### Whole sessions -/

theorem memorySession_triple (platform : Platform Content) (collections : Collections)
    [LawfulCollections platform collections memoryConf]
    {caller : Heap Content} {heapCalls : List (MemoryCall Pointer)}
    {calls : List (MemoryCall Values)}
    (resolved : heapCalls.mapM (resolveCall caller) = some calls) :
    Triple (AllocationFault platform) (Assertion.exactly caller)
      (memorySession platform collections heapCalls)
      fun responses => (⨆ after,
        fact (CellStore.empty.Runs collections.MayRefuse calls responses after) *
          leaked collections (responses.countP MemoryResponse.refused)) *
        Assertion.exactly caller := by
  refine Triple.call memoryNew_triple (one_mul _).symm fun mem => ?_
  rw [Quantale.sup_mul_distrib]
  apply Triple.sup
  · refine Triple.bind (performAll_triple mem .empty resolved) ?_
    rintro ⟨responses, mem⟩
    rw [responded, Quantale.iSup_mul_distrib]
    apply Triple.iSup
    intro after
    rw [mul_assoc, mul_assoc]
    apply Triple.fact
    intro runs
    refine Triple.call (memoryFree_triple mem after) rfl fun _ => ?_
    apply Triple.pure
    rw [one_mul]
    refine Assertion.mul_apply_mono (le_iSup_of_le after ?_) le_rfl
    rw [Assertion.fact_of runs, one_mul]
  · apply Triple.fact
    rintro ⟨mayFail, unallocated⟩
    refine Triple.bind (performAll_unallocated mayFail unallocated resolved) ?_
    rintro ⟨responses, mem⟩
    apply Triple.fact
    rintro (still : mem.data = .indeterminate)
    simp only [memoryFree, still, bind_assoc,
      LawfulCollections.iter_indeterminate platform memoryConf]
    exact Triple.stop ⟨mayFail, .inr rfl⟩

/-- From `memory_new` to `memory_free`, whatever is called in between: the calls are
answered as by a write-once store, the caller's heap is left as it was, and all that
remains allocated are the key and the value of entries that the table refused.  The only
faults are accesses through pointers that an unchecked allocation left unusable. -/
theorem memorySession_safe (platform : Platform Content) (collections : Collections)
    [LawfulCollections platform collections memoryConf] (caller : Heap Content)
    {heapCalls : List (MemoryCall Pointer)} {calls : List (MemoryCall Values)}
    (resolved : heapCalls.mapM (resolveCall caller) = some calls) :
    (∃ responses after leaks,
      memorySession platform collections heapCalls caller =
        .ok (responses, leaks ∪ caller) ∧
      CellStore.empty.Runs collections.MayRefuse calls responses after ∧
      leaks.Disjoint caller ∧
      leaks.keys.card ≤ 2 * responses.countP MemoryResponse.refused ∧
      (¬collections.MayRefuse → leaks = ∅)) ∨
    platform.MayFail ∧
      (memorySession platform collections heapCalls caller =
          .error (.fault .nullAccess) ∨
        memorySession platform collections heapCalls caller =
          .error (.fault .indeterminateAccess)) := by
  refine (run_of_triple (memorySession_triple platform collections resolved) rfl).imp ?_ id
  rintro ⟨responses, leaks, returned, apart, left⟩
  obtain ⟨after, runs, few, none⟩ := Assertion.iSup_fact_mul_apply.mp left
  exact ⟨responses, after, leaks, returned, runs, apart, few, none⟩

/-- An array of one element. -/
def arrayHeap : Heap Content :=
  Finmap.singleton 0 ⟨.dynamic, .array [.target 1]⟩ ∪
    Finmap.singleton 1 ⟨.dynamic, .maybeRelocatable (.relocatable ⟨0, 5⟩)⟩

/-- Blocks are placed above all others, and containers always grow. -/
abbrev bumpCollections : Collections := growing (bumpPlatform Content) memoryConf

theorem memorySession_safe_arrayHeap : ∃ responses,
    memorySession (bumpPlatform Content) bumpCollections
      [.addSegment, .loadData ⟨0, 0⟩ (.target 0), .get ⟨0, 0⟩] arrayHeap =
        .ok (responses, arrayHeap) := by
  have resolved : [MemoryCall.addSegment, .loadData ⟨0, 0⟩ (.target 0), .get ⟨0, 0⟩].mapM
      (resolveCall arrayHeap) =
      some [.addSegment, .loadData ⟨0, 0⟩ [.relocatable ⟨0, 5⟩], .get ⟨0, 0⟩] := rfl
  rcases memorySession_safe (bumpPlatform Content) bumpCollections arrayHeap resolved with
    ⟨responses, after, leaks, returned, -, -, -, none⟩ | ⟨mayFail, -⟩
  · rw [none not_mayRefuse_growing, Finmap.empty_union] at returned
    exact ⟨responses, returned⟩
  · exact absurd mayFail (not_mayFail_bumpPlatform Content)

/-- A write that a table refused may be accepted when it is tried again. -/
example : ((memorySession (bumpPlatform Content)
    (chained (bumpPlatform Content) memoryConf fun heap => heap.keys.card = 3)
    [.addSegment, .insert ⟨0, 0⟩ (.relocatable ⟨1, 1⟩),
      .insert ⟨0, 0⟩ (.relocatable ⟨1, 1⟩), .get ⟨0, 0⟩]) ∅).map Prod.fst =
    .ok [.segment ⟨0, 0⟩, .inserted (.error .insert), .inserted (.ok ()),
      .got (.ok (.relocatable ⟨1, 1⟩))] := by
  rfl

/-- Without allocation failures the caller's heap is restored exactly, and the responses
are those of the memory over any lawful table. -/
theorem memorySession_refines {Table : Type}
    [CCHashTable Table Relocatable MaybeRelocatable] [LawfulCCHashTable Table memoryConf]
    {platform : Platform Content} {collections : Collections}
    [LawfulCollections platform collections memoryConf] (caller : Heap Content)
    {heapCalls : List (MemoryCall Pointer)} {calls : List (MemoryCall Values)}
    (reliablePlatform : ¬platform.MayFail) (reliableTable : ¬collections.MayRefuse)
    (resolved : heapCalls.mapM (resolveCall caller) = some calls) :
    memorySession platform collections heapCalls caller =
      .ok (memoryResponses (CairoVM.memoryNew Table) calls, caller) := by
  have triple := memorySession_triple platform collections resolved
  rcases run_of_triple triple rfl with ⟨responses, leaks, returned, -, left⟩ | ⟨mayFail, -⟩
  · obtain ⟨after, runs, -, none⟩ := Assertion.iSup_fact_mul_apply.mp left
    have answers := memoryResponses_runs (CairoVM.memoryNew Table) calls
    rw [store_memoryNew] at answers
    have reliable : collections.MayRefuse = False := eq_false reliableTable
    rw [reliable] at runs
    rw [returned, none reliableTable, Finmap.empty_union,
      (runs.unique not_false answers).1]
  · exact absurd mayFail reliablePlatform

theorem memorySession_refines_arrayHeap :
    memorySession (bumpPlatform Content) bumpCollections
      [.addSegment, .loadData ⟨0, 0⟩ (.target 0), .get ⟨0, 0⟩] arrayHeap =
    .ok (memoryResponses (CairoVM.memoryNew CellTable)
      [.addSegment, .loadData ⟨0, 0⟩ [.relocatable ⟨0, 5⟩], .get ⟨0, 0⟩], arrayHeap) :=
  memorySession_refines arrayHeap (not_mayFail_bumpPlatform Content)
    not_mayRefuse_growing rfl

end CairoVM.OnHeap
