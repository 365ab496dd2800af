import CairoVM.Model.HeapCollections

/-!
# Containers that meet the contract

Tables and arrays that are single blocks.  They show that the contract of the containers
can be met, also by ones that fail at one call and grow at the next; runs of the model are
evaluated on those that always grow.
-/

namespace CairoVM.OnHeap

open HeapLogic
open Assertion (pointsTo fact has_pointsTo)

section

variable (platform : Platform Content) (conf : CCHashTableConf Relocatable)
  (full : Heap Content → Bool)

/-- Make a container. -/
def newContainer (content : Content) (out : Pointer) : Prog (CCStat × Pointer) := do
  match ← malloc platform content with
  | .target address => pure (.ok, .target address)
  | _ => pure (.errAlloc, out)

/-- Change a container, unless the heap is full. -/
def growContainer (container : Pointer) (content : Content) : Prog CCStat := fun heap =>
  if full heap then .ok (.errAlloc, heap)
  else (store container content >>= fun _ => pure .ok : Prog CCStat) heap

/-- The first entry with an equal key.  Comparing keys reads them. -/
def findEntry (query : Relocatable) : List TableEntry → Prog (Option TableEntry)
  | [] => pure none
  | entry :: rest => do
      let key ← loadAs Content.relocatable? entry.key
      if conf.keyCompare query key = 0 then pure (some entry) else findEntry query rest

/-- Tables and arrays that are single blocks.  A table keeps its newest entry first. -/
def chained : Collections where
  ccHashtableNewConf _ out := newContainer platform (.hashTable []) out
  ccHashtableGet table query := do
    let entries ← loadAs Content.hashTable? table
    match ← findEntry conf query entries with
    | some entry => pure (.ok entry.value)
    | none => pure (.error .errKeyNotFound)
  ccHashtableAdd table key value := do
    let entries ← loadAs Content.hashTable? table
    let query ← loadAs Content.relocatable? key
    match ← findEntry conf query entries with
    | some found =>
        store table (.hashTable
          (entries.map fun entry => if entry = found then { entry with value } else entry))
        pure .ok
    | none => growContainer full table (.hashTable (⟨key, value⟩ :: entries))
  ccHashtableIter table := loadAs Content.hashTable? table
  ccHashtableRemoveAll table := store table (.hashTable [])
  ccHashtableDestroy table := free table
  ccArrayNew out := newContainer platform (.array []) out
  ccArrayAdd array element := do
    let elements ← loadAs Content.array? array
    growContainer full array (.array (elements ++ [element]))
  ccArrayIter array := loadAs Content.array? array
  ccArraySize array := do
    let elements ← loadAs Content.array? array
    pure elements.length
  ccArrayRemoveAllFree array := do
    let elements ← loadAs Content.array? array
    elements.forM free
    store array (.array [])
  ccArrayDestroy array := free array

/-- Containers that always grow. -/
def growing : Collections := chained platform conf fun _ => false

end

/-! ## The contract is met -/

section Lawful

variable {platform : Platform Content} {conf : CCHashTableConf Relocatable}
  {full : Heap Content → Bool}

theorem newContainer_safe (content : Content) (out : Pointer) :
    Safe 1 (newContainer platform content out)
      (made platform out fun address => pointsTo address ⟨.dynamic, content⟩) := by
  rw [newContainer]
  apply Triple.malloc
  · intro mayFail
    refine Triple.pure _ (le_sup_of_le_right ?_)
    rw [Assertion.fact_of ⟨mayFail, CCStat.noConfusion, rfl⟩]
  · intro address
    refine Triple.pure _ (le_sup_of_le_left (le_iSup_of_le address ?_))
    rw [Assertion.fact_of rfl, mul_comm]

/-- A container that does not grow is as before. -/
theorem growContainer_safe (address : Address) (storage : Storage)
    (content before : Content) :
    Safe (pointsTo address ⟨storage, before⟩)
      (growContainer full (.target address) content)
      fun stat => pointsTo address ⟨storage, if stat = .ok then content else before⟩ := by
  intro rest heap inside
  rw [growContainer]
  split
  · exact inside
  · have grows : Safe (pointsTo address ⟨storage, before⟩)
        (store (.target address) content >>= fun _ => pure .ok : Prog CCStat)
        fun stat =>
          pointsTo address ⟨storage, if stat = .ok then content else before⟩ := by
      refine Triple.store (mul_one _).symm ?_
      apply Triple.pure
      rw [mul_one, if_pos rfl]
    exact grows rest heap inside

section Find

variable {Result : Type} {mayStop : Stop Empty → Prop} {owned : Assertion Content}
  {entries : List KeyedEntry} {post : Result → Assertion Content}

/-- The search ends at an entry with the key, or finds that there is none. -/
theorem findEntry_rule
    (keys : ∀ entry ∈ entries, owned.Has entry.keyAddress ⟨.dynamic, .relocatable entry.key⟩)
    {query : Relocatable} {next : Option TableEntry → Prog Result}
    (found : ∀ entry ∈ entries, conf.keyCompare query entry.key = 0 →
      Triple mayStop owned (next (some entry.entry)) post)
    (missing : (∀ entry ∈ entries, conf.keyCompare query entry.key ≠ 0) →
      Triple mayStop owned (next none) post) :
    Triple mayStop owned
      (findEntry conf query (entries.map KeyedEntry.entry) >>= next) post := by
  induction entries with
  | nil => exact missing (by simp)
  | cons entry rest ih =>
      simp only [List.map_cons, findEntry, bind_assoc]
      refine Triple.loadAs (keys entry (by simp)) (by rfl) ?_
      by_cases same : conf.keyCompare query entry.key = 0
      · rw [if_pos same, pure_bind]
        exact found entry (by simp) same
      · rw [if_neg same]
        refine ih (fun other member => keys other (List.mem_cons_of_mem _ member))
          (fun other member => found other (List.mem_cons_of_mem _ member)) ?_
        intro absent
        exact missing (List.forall_mem_cons.mpr ⟨same, absent⟩)

end Find

theorem has_keyedAt {table : Address} {entries : List KeyedEntry} {entry : KeyedEntry}
    (member : entry ∈ entries) :
    (keyedAt table entries).Has entry.keyAddress ⟨.dynamic, .relocatable entry.key⟩ :=
  (entry.has_keyAt.prod (List.mem_map_of_mem member)).mul_left _

variable (platform conf full)

theorem chained_get (table : Address) (entries : List KeyedEntry) (query : Relocatable) :
    Safe (keyedAt table entries)
      ((chained platform conf full).ccHashtableGet (.target table) query)
      fun result => fact (Finds conf entries query result) * keyedAt table entries := by
  refine Triple.loadAs ((has_entriesAt _ _).mul_right _) (by rfl) ?_
  refine findEntry_rule (fun entry member => has_keyedAt member) ?_ ?_
  · intro entry member same
    exact Triple.pure _ (Assertion.le_fact_mul (.found member same) _)
  · intro absent
    exact Triple.pure _ (Assertion.le_fact_mul (.missing absent) _)

theorem chained_add (table : Address) (entries : List KeyedEntry) (entry : KeyedEntry)
    (absent : ∀ other ∈ entries, conf.keyCompare entry.key other.key ≠ 0) :
    Safe (keyedAt table entries * entry.keyAt)
      ((chained platform conf full).ccHashtableAdd (.target table)
        (.target entry.keyAddress) entry.value)
      fun stat => ⨆ after : List KeyedEntry,
        fact (after.Perm (if stat = .ok then entry :: entries else entries)) *
          (entriesAt table (after.map KeyedEntry.entry) *
            ((entry :: entries).map KeyedEntry.keyAt).prod) := by
  refine Triple.loadAs (((has_entriesAt _ _).mul_right _).mul_right _) (by rfl) ?_
  refine Triple.loadAs (entry.has_keyAt.mul_left _) (by rfl) ?_
  refine findEntry_rule (fun other member => (has_keyedAt member).mul_right _) ?_ ?_
  · intro other member same
    exact absurd same (absent other member)
  intro _
  have split : keyedAt table entries * entry.keyAt =
      entriesAt table (entries.map KeyedEntry.entry) *
        ((entry :: entries).map KeyedEntry.keyAt).prod := by
    rw [keyedAt, List.map_cons, List.prod_cons, mul_assoc, mul_comm entry.keyAt]
  rw [split]
  refine ((growContainer_safe table .dynamic _ _).frame _).consequence le_rfl fun stat => ?_
  refine le_iSup_of_le (if stat = .ok then entry :: entries else entries) ?_
  refine le_trans (Assertion.mul_apply_mono (le_of_eq ?_) le_rfl)
    (Assertion.le_fact_mul (List.Perm.refl _) _)
  split
  · rfl
  · rfl

theorem chained_arrayAdd (array : Address) (storage : Storage) (elements : List Pointer)
    (element : Pointer) :
    Safe (arrayAt array storage elements)
      ((chained platform conf full).ccArrayAdd (.target array) element)
      fun stat =>
        arrayAt array storage (if stat = .ok then elements ++ [element] else elements) := by
  refine Triple.loadAs (has_pointsTo _ _) (by rfl) ?_
  refine (growContainer_safe array storage _ _).consequence le_rfl fun stat => le_of_eq ?_
  split
  · rfl
  · rfl

theorem chained_arrayRemoveAllFree (array : Address) (storage : Storage)
    (elements : List (Address × Content)) :
    Safe (arrayAt array storage (elements.map fun element => .target element.1) *
        (elements.map fun element => pointsTo element.1 ⟨.dynamic, element.2⟩).prod)
      ((chained platform conf full).ccArrayRemoveAllFree (.target array))
      fun _ => arrayAt array storage [] := by
  have each : ∀ element ∈ elements,
      Safe (pointsTo element.1 ⟨.dynamic, element.2⟩)
        (free (.target element.1) : Prog Unit) fun _ => 1 :=
    fun element _ => Triple.free_last (mul_one _).symm
  have releases : Safe
      (elements.map fun element => pointsTo element.1 ⟨.dynamic, element.2⟩).prod
      ((elements.map fun element => Pointer.target element.1).forM free : Prog Unit)
      fun _ => 1 := by
    rw [List.forM_eq_forM, List.forM_map]
    refine (Triple.forM each).consequence le_rfl fun _ => ?_
    simp
  refine Triple.loadAs ((has_pointsTo _ _).mul_right _) (by rfl) ?_
  refine Triple.call releases (mul_comm _ _) fun _ => ?_
  rw [one_mul]
  exact Triple.store_last

/-- Whenever the heap is full, it is the call that fails. -/
instance lawful_chained : LawfulCollections platform (chained platform conf full) conf where
  newConf out := newContainer_safe (.hashTable []) out
  get := chained_get platform conf full
  add := chained_add platform conf full
  iter table entries := by
    refine (Triple.loadAs_last (has_entriesAt table entries) (by rfl)).consequence le_rfl
      fun visited => Assertion.mul_apply_mono (Assertion.fact_mono ?_) le_rfl
    rintro rfl
    exact List.Perm.refl _
  removeAll _ _ := Triple.store_last
  destroy _ _ := Triple.free_last (mul_one _).symm
  arrayNew out := newContainer_safe (.array []) out
  arrayAdd := chained_arrayAdd platform conf full
  arrayIter array storage elements := Triple.loadAs_last (has_arrayAt _ _ _) (by rfl)
  arraySize array storage elements :=
    Triple.loadAs (has_arrayAt _ _ _) (by rfl)
      (Triple.pure _ (Assertion.le_fact_mul rfl _))
  arrayRemoveAllFree := chained_arrayRemoveAllFree platform conf full
  arrayDestroy _ _ := Triple.free_last (mul_one _).symm
  get_indeterminate _ := rfl
  iter_indeterminate := rfl
  arrayAdd_indeterminate _ := rfl

end Lawful

/-! ## Containers that always grow -/

section Growing

variable {platform : Platform Content} {conf : CCHashTableConf Relocatable}
  {stat : CCStat} {heap after : Heap Content}

instance lawful_growing : LawfulCollections platform (growing platform conf) conf :=
  lawful_chained platform conf _

theorem eq_ok_of_growContainer {container : Pointer} {content : Content}
    (returned : growContainer (fun _ => false) container content heap = .ok (stat, after)) :
    stat = .ok := by
  obtain ⟨_, _, -, last⟩ := run_bind_eq_ok_iff.mp returned
  cases last
  rfl

theorem not_mayRefuse_growing : ¬(growing platform conf).MayRefuse := by
  rintro ⟨table, entries, entry, stat, refused, rest, heap, after, -, returned⟩
  obtain ⟨held, _, -, returned⟩ := run_bind_eq_ok_iff.mp returned
  obtain ⟨query, _, -, returned⟩ := run_bind_eq_ok_iff.mp returned
  obtain ⟨outcome, _, -, returned⟩ := run_bind_eq_ok_iff.mp returned
  cases outcome with
  | none => exact refused (eq_ok_of_growContainer returned)
  | some found =>
      obtain ⟨_, _, -, last⟩ := run_bind_eq_ok_iff.mp returned
      cases last
      exact refused rfl

theorem not_arrayMayRefuse_growing : ¬(growing platform conf).ArrayMayRefuse := by
  rintro ⟨array, storage, elements, element, stat, refused, rest, heap, after, -, returned⟩
  obtain ⟨_, _, -, returned⟩ := run_bind_eq_ok_iff.mp returned
  exact refused (eq_ok_of_growContainer returned)

end Growing

end CairoVM.OnHeap
