import CairoVM.Library.Triple
import CairoVM.Model.Memory

/-!
# The containers of Collections-C on the heap

The functions of Collections-C once more, at the level of pointers.  They are parameters
here too: `Collections` lists what the repository calls, and `LawfulCollections` is the
documented contract.  A container is one block, whatever the library allocates behind it.
A function that only reads its container leaves it as it was, and none of them touches
anything else.

Whether a container can grow is decided anew at each call.  An addition that fails leaves
the elements in the container, though not always in the same order, as the table may have
been rehashed before.
-/

namespace CairoVM.OnHeap

open HeapLogic
open Assertion (pointsTo fact has_pointsTo)

/-- `TableEntry`, as far as the memory reads it. -/
structure TableEntry where
  key : Pointer
  value : Pointer
  deriving DecidableEq, Repr

/-- What a block holds. -/
inductive Content where
  | uninitialized
  | relocatable (value : Relocatable)
  | maybeRelocatable (value : MaybeRelocatable)
  | hashTable (entries : List TableEntry)
  | array (elements : List Pointer)
  deriving DecidableEq, Repr

namespace Content

def relocatable? : Content → Option Relocatable
  | .relocatable value => some value
  | _ => none

def maybeRelocatable? : Content → Option MaybeRelocatable
  | .maybeRelocatable value => some value
  | _ => none

def hashTable? : Content → Option (List TableEntry)
  | .hashTable entries => some entries
  | _ => none

def array? : Content → Option (List Pointer)
  | .array elements => some elements
  | _ => none

end Content

/-- The functions of the repository throw nothing. -/
abbrev Prog := Program Content Empty

/-! ## The functions -/

/-- The functions of `cc_hashtable.h` and `cc_array.h` that the repository calls.  A
function that makes a container is given the value `out` of its out parameter, and returns
the value it leaves there; `ccHashtableGet` returns what it writes to its out parameter.
The iterators are represented by the list of what they visit. -/
structure Collections where
  ccHashtableNewConf : CCHashTableConf Relocatable → Pointer → Prog (CCStat × Pointer)
  ccHashtableGet : Pointer → Relocatable → Prog (Except CCStat Pointer)
  ccHashtableAdd : Pointer → Pointer → Pointer → Prog CCStat
  ccHashtableIter : Pointer → Prog (List TableEntry)
  ccHashtableRemoveAll : Pointer → Prog Unit
  ccHashtableDestroy : Pointer → Prog Unit
  ccArrayNew : Pointer → Prog (CCStat × Pointer)
  ccArrayAdd : Pointer → Pointer → Prog CCStat
  ccArrayIter : Pointer → Prog (List Pointer)
  ccArraySize : Pointer → Prog Nat
  ccArrayRemoveAllFree : Pointer → Prog Unit
  ccArrayDestroy : Pointer → Prog Unit

/-! ## Their contract -/

/-- An entry whose key is in a block of its own. -/
structure KeyedEntry where
  keyAddress : Address
  key : Relocatable
  value : Pointer

namespace KeyedEntry

def entry (keyed : KeyedEntry) : TableEntry := ⟨.target keyed.keyAddress, keyed.value⟩

def keyAt (keyed : KeyedEntry) : Assertion Content :=
  pointsTo keyed.keyAddress ⟨.dynamic, .relocatable keyed.key⟩

theorem has_keyAt (keyed : KeyedEntry) :
    keyed.keyAt.Has keyed.keyAddress ⟨.dynamic, .relocatable keyed.key⟩ :=
  has_pointsTo _ _

end KeyedEntry

/-- The block of a table. -/
def entriesAt (table : Address) (entries : List TableEntry) : Assertion Content :=
  pointsTo table ⟨.dynamic, .hashTable entries⟩

theorem has_entriesAt (table : Address) (entries : List TableEntry) :
    (entriesAt table entries).Has table ⟨.dynamic, .hashTable entries⟩ :=
  has_pointsTo _ _

/-- The blocks of a table and its keys. -/
def keyedAt (table : Address) (entries : List KeyedEntry) : Assertion Content :=
  entriesAt table (entries.map KeyedEntry.entry) * (entries.map KeyedEntry.keyAt).prod

/-- The block of an array. -/
def arrayAt (array : Address) (storage : Storage) (elements : List Pointer) :
    Assertion Content :=
  pointsTo array ⟨storage, .array elements⟩

theorem has_arrayAt (array : Address) (storage : Storage) (elements : List Pointer) :
    (arrayAt array storage elements).Has array ⟨storage, .array elements⟩ :=
  has_pointsTo _ _

/-- The outcome of making a container: there is a new one, or the out parameter keeps its
value. -/
def made (platform : Platform Content) (out : Pointer)
    (containerAt : Address → Assertion Content) (outcome : CCStat × Pointer) :
    Assertion Content :=
  (⨆ container, fact (outcome = (.ok, .target container)) * containerAt container) ⊔
    fact (platform.MayFail ∧ outcome.1 ≠ .ok ∧ outcome.2 = out)

/-- What a search among some entries returns. -/
inductive Finds (conf : CCHashTableConf Relocatable) (entries : List KeyedEntry)
    (query : Relocatable) : Except CCStat Pointer → Prop
  | found {entry : KeyedEntry} (member : entry ∈ entries)
      (same : conf.keyCompare query entry.key = 0) :
      Finds conf entries query (.ok entry.value)
  | missing (absent : ∀ entry ∈ entries, conf.keyCompare query entry.key ≠ 0) :
      Finds conf entries query (.error .errKeyNotFound)

/-- The contract of the functions, for tables that are built with a configuration. -/
class LawfulCollections (platform : Platform Content) (collections : Collections)
    (conf : CCHashTableConf Relocatable) : Prop where
  newConf : ∀ out, Safe 1 (collections.ccHashtableNewConf conf out)
    (made platform out fun table => entriesAt table [])
  get : ∀ table entries query,
    Safe (keyedAt table entries) (collections.ccHashtableGet (.target table) query)
      fun result => fact (Finds conf entries query result) * keyedAt table entries
  add : ∀ table entries (entry : KeyedEntry),
    (∀ other ∈ entries, conf.keyCompare entry.key other.key ≠ 0) →
    Safe (keyedAt table entries * entry.keyAt)
      (collections.ccHashtableAdd (.target table) (.target entry.keyAddress) entry.value)
      fun stat => ⨆ after : List KeyedEntry,
        fact (after.Perm (if stat = .ok then entry :: entries else entries)) *
          (entriesAt table (after.map KeyedEntry.entry) *
            ((entry :: entries).map KeyedEntry.keyAt).prod)
  iter : ∀ table entries,
    Safe (entriesAt table entries) (collections.ccHashtableIter (.target table))
      fun visited => fact (visited.Perm entries) * entriesAt table entries
  removeAll : ∀ table entries,
    Safe (entriesAt table entries) (collections.ccHashtableRemoveAll (.target table))
      fun _ => entriesAt table []
  destroy : ∀ table entries,
    Safe (entriesAt table entries) (collections.ccHashtableDestroy (.target table))
      fun _ => 1
  arrayNew : ∀ out, Safe 1 (collections.ccArrayNew out)
    (made platform out fun array => arrayAt array .dynamic [])
  arrayAdd : ∀ array storage elements element,
    Safe (arrayAt array storage elements) (collections.ccArrayAdd (.target array) element)
      fun stat =>
        arrayAt array storage (if stat = .ok then elements ++ [element] else elements)
  arrayIter : ∀ array storage elements,
    Safe (arrayAt array storage elements) (collections.ccArrayIter (.target array))
      fun visited => fact (visited = elements) * arrayAt array storage elements
  arraySize : ∀ array storage elements,
    Safe (arrayAt array storage elements) (collections.ccArraySize (.target array))
      fun size => fact (size = elements.length) * arrayAt array storage elements
  /-- The elements are dynamic blocks, and are freed one by one. -/
  arrayRemoveAllFree : ∀ array storage (elements : List (Address × Content)),
    Safe (arrayAt array storage (elements.map fun element => .target element.1) *
        (elements.map fun element => pointsTo element.1 ⟨.dynamic, element.2⟩).prod)
      (collections.ccArrayRemoveAllFree (.target array))
      fun _ => arrayAt array storage []
  arrayDestroy : ∀ array elements,
    Safe (arrayAt array .dynamic elements) (collections.ccArrayDestroy (.target array))
      fun _ => 1
  /-- A container that was never made cannot be accessed. -/
  get_indeterminate : ∀ query, collections.ccHashtableGet .indeterminate query =
    stop (.fault .indeterminateAccess)
  iter_indeterminate : collections.ccHashtableIter .indeterminate =
    stop (.fault .indeterminateAccess)
  arrayAdd_indeterminate : ∀ element, collections.ccArrayAdd .indeterminate element =
    stop (.fault .indeterminateAccess)

/-! ## Refusals -/

/-- A call that adds an entry may fail. -/
def Collections.MayRefuse (collections : Collections) : Prop :=
  ∃ (table : Address) (entries : List KeyedEntry) (entry : KeyedEntry) (stat : CCStat),
    stat ≠ .ok ∧
    ∃ rest heap after, (keyedAt table entries * entry.keyAt * rest) heap ∧
      collections.ccHashtableAdd (.target table) (.target entry.keyAddress) entry.value heap =
        .ok (stat, after)

/-- A call that adds an element may fail. -/
def Collections.ArrayMayRefuse (collections : Collections) : Prop :=
  ∃ (array : Address) (storage : Storage) (elements : List Pointer) (element : Pointer)
    (stat : CCStat), stat ≠ .ok ∧
    ∃ rest heap after, (arrayAt array storage elements * rest) heap ∧
      collections.ccArrayAdd (.target array) element heap = .ok (stat, after)

end CairoVM.OnHeap
