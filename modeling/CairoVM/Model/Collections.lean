/-!
# The containers of Collections-C

The repository stores memory cells in a `CC_HashTable` and passes data around in
`CC_Array`s.  Both come from a library that is not part of the repository.

The hash table is a parameter of the development: `CCHashTable` lists the three
functions that `memory.c` calls, and `LawfulCCHashTable` is their documented
contract, a finite map whose keys are compared by the configured comparison.  The
hash function and the load factor only choose the bucket a key is kept in, so
neither appears in the contract.

`CCArray` and `LawfulCCArray` do the same for a `CC_Array`, which is only appended to,
measured, and iterated from front to back.  An element is a pointer, and stands here for
the value that it designates.
-/

namespace CairoVM

/-- The status codes of Collections-C that the repository distinguishes. -/
inductive CCStat where
  | ok
  | errAlloc
  | errKeyNotFound
  deriving DecidableEq, Repr

/-- The part of `CC_HashTableConf` that decides which keys are equal. -/
structure CCHashTableConf (Key : Type) where
  keyCompare : Key → Key → Int

/-- The functions of `cc_hashtable.h` that the memory uses.  `get` is
`cc_hashtable_get` together with the value it writes to its out parameter. -/
class CCHashTable (Table : Type) (Key Value : outParam Type) where
  newConf : CCHashTableConf Key → Table
  get : Table → Key → Except CCStat Value
  add : Table → Key → Value → CCStat × Table

/-- The contract of a hash table built with a configuration: it starts empty, and
adding an entry succeeds and replaces the entry of an equal key. -/
class LawfulCCHashTable (Table : Type) {Key Value : Type}
    [CCHashTable Table Key Value] (conf : CCHashTableConf Key) : Prop where
  get_newConf : ∀ query : Key,
    CCHashTable.get (CCHashTable.newConf conf : Table) query =
      .error .errKeyNotFound
  add_stat : ∀ (entries : Table) (key : Key) (value : Value),
    (CCHashTable.add entries key value).1 = .ok
  get_add : ∀ (entries : Table) (key : Key) (value : Value) (query : Key),
    CCHashTable.get (CCHashTable.add entries key value).2 query =
      if conf.keyCompare query key = 0 then .ok value
      else CCHashTable.get entries query

/-- A table with a single bucket: the chain of its entries, newest first.  It
shows that the contract can be met, and runs of the model are evaluated on it. -/
structure ChainTable {Key : Type} (conf : CCHashTableConf Key) (Value : Type) where
  entries : List (Key × Value)

namespace ChainTable

variable {Key Value : Type} {conf : CCHashTableConf Key}

/-- Walk down the chain to the first entry with an equal key. -/
def find (conf : CCHashTableConf Key) :
    List (Key × Value) → Key → Except CCStat Value
  | [], _ => .error .errKeyNotFound
  | (key, value) :: rest, query =>
      if conf.keyCompare query key = 0 then .ok value else find conf rest query

instance : CCHashTable (ChainTable conf Value) Key Value where
  newConf _ := ⟨[]⟩
  get table query := find conf table.entries query
  add table key value := (.ok, ⟨(key, value) :: table.entries⟩)

instance : LawfulCCHashTable (ChainTable conf Value) conf where
  get_newConf _ := rfl
  add_stat _ _ _ := rfl
  get_add _ _ _ _ := rfl

end ChainTable

/-- The functions of `cc_array.h` that the runner uses.  An iterator is represented by the
list of what it visits. -/
class CCArray (Array : Type) (Value : outParam Type) where
  new : Array
  add : Array → Value → CCStat × Array
  size : Array → Nat
  iter : Array → List Value

/-- The contract of an array: it starts empty and keeps what is added in order. -/
class LawfulCCArray (Array : Type) {Value : Type} [CCArray Array Value] : Prop where
  iter_new : CCArray.iter (CCArray.new : Array) = []
  iter_add : ∀ (array : Array) (value : Value),
    CCArray.iter (CCArray.add array value).2 = CCArray.iter array ++ [value]
  size_eq : ∀ array : Array, CCArray.size array = (CCArray.iter array).length

instance {Value : Type} : CCArray (List Value) Value where
  new := []
  add array value := (.ok, array ++ [value])
  size := List.length
  iter := id

instance {Value : Type} : LawfulCCArray (List Value) where
  iter_new := rfl
  iter_add _ _ := rfl
  size_eq _ := rfl

end CairoVM
