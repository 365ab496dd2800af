import CairoVM.Memory.Store
import CairoVM.Model.HeapMemory

/-!
# Ownership of the cells

A memory owns its table and, for every cell, the two blocks that `memory_insert`
allocated for it.  This module says so as an assertion and derives what the functions
of the table read and change.
-/

namespace CairoVM.OnHeap

open HeapLogic WriteOnce
open Assertion (pointsTo fact has_pointsTo)

/-- Where the blocks of a cell are, and what they hold. -/
structure Cell where
  keyAddress : Address
  valueAddress : Address
  ptr : Relocatable
  value : MaybeRelocatable

namespace Cell

/-- The entry of a cell. -/
def keyed (cell : Cell) : KeyedEntry where
  keyAddress := cell.keyAddress
  key := cell.ptr
  value := .target cell.valueAddress

def val (cell : Cell) : Assertion Content :=
  pointsTo cell.valueAddress ⟨.dynamic, .maybeRelocatable cell.value⟩

/-- The blocks of a cell. -/
def owned (cell : Cell) : Assertion Content := cell.keyed.keyAt * cell.val

theorem has_val (cell : Cell) :
    cell.val.Has cell.valueAddress ⟨.dynamic, .maybeRelocatable cell.value⟩ :=
  has_pointsTo _ _

end Cell

/-- The blocks of a table and its cells. -/
def tableAt (table : Address) (cells : List Cell) : Assertion Content :=
  keyedAt table (cells.map Cell.keyed) * (cells.map Cell.val).prod

theorem prod_owned (cells : List Cell) :
    (cells.map Cell.owned).prod =
      ((cells.map Cell.keyed).map KeyedEntry.keyAt).prod * (cells.map Cell.val).prod := by
  rw [List.map_map]
  exact List.prod_map_mul

theorem tableAt_eq (table : Address) (cells : List Cell) :
    tableAt table cells =
      entriesAt table ((cells.map Cell.keyed).map KeyedEntry.entry) *
        (cells.map Cell.owned).prod := by
  rw [tableAt, keyedAt, prod_owned, mul_assoc]

theorem tableAt_nil (table : Address) : tableAt table [] = entriesAt table [] :=
  (tableAt_eq table []).trans (mul_one _)

theorem has_tableAt {table : Address} {cells : List Cell} {cell : Cell}
    (member : cell ∈ cells) :
    (tableAt table cells).Has cell.valueAddress
      ⟨.dynamic, .maybeRelocatable cell.value⟩ :=
  (cell.has_val.prod (List.mem_map_of_mem member)).mul_left _

/-- The cells of a table are the given contents. -/
def Holds (cells : List Cell) (contents : Contents Relocatable MaybeRelocatable) : Prop :=
  ∀ ptr value, contents ptr = some value ↔
    ∃ cell ∈ cells, cell.ptr = ptr ∧ cell.value = value

theorem holds_nil : Holds [] fun _ => none := by
  simp [Holds]

theorem Holds.perm {cells others : List Cell}
    {contents : Contents Relocatable MaybeRelocatable} (holds : Holds cells contents)
    (reordered : others.Perm cells) : Holds others contents := by
  intro ptr value
  rw [holds]
  simp only [reordered.mem_iff]

theorem Holds.eq_none_iff {cells : List Cell}
    {contents : Contents Relocatable MaybeRelocatable} (holds : Holds cells contents)
    {ptr : Relocatable} : contents ptr = none ↔ ∀ cell ∈ cells, cell.ptr ≠ ptr := by
  rw [Option.eq_none_iff_forall_ne_some]
  constructor
  · intro empty cell member same
    exact empty cell.value ((holds ptr cell.value).mpr ⟨cell, member, same, rfl⟩)
  · intro absent value present
    obtain ⟨cell, member, same, -⟩ := (holds ptr value).mp present
    exact absent cell member same

/-- A new cell is one accepted write. -/
theorem Holds.cons {cells : List Cell}
    {contents : Contents Relocatable MaybeRelocatable} (holds : Holds cells contents)
    (cell : Cell) (empty : contents cell.ptr = none) :
    Holds (cell :: cells) (put contents (cell.ptr, cell.value)) := by
  intro ptr value
  have agrees : Agrees contents (cell.ptr, cell.value) := agrees_of_none empty
  have written : (ptr, value) = (cell.ptr, cell.value) ↔
      cell.ptr = ptr ∧ cell.value = value := by
    rw [Prod.mk.injEq, eq_comm, @eq_comm _ value]
  rw [put_eq_some_iff agrees, holds, written, or_comm]
  simp only [List.mem_cons, exists_eq_or_imp]

/-- Images in another order are those of the items in some order. -/
theorem exists_map_of_perm {Item Image : Type} {image : Item → Image} {items : List Item}
    {images : List Image} (reordered : images.Perm (items.map image)) :
    ∃ others : List Item, others.Perm items ∧ others.map image = images := by
  have same : List.Forall₂ (fun part item => image item = part) (items.map image) items := by
    rw [List.forall₂_map_left_iff, List.forall₂_same]
    exact fun _ _ => rfl
  obtain ⟨others, imagesOf, perm⟩ := List.perm_comp_forall₂ reordered same
  refine ⟨others, perm, ?_⟩
  rw [← List.forall₂_eq_eq_eq, List.forall₂_map_left_iff]
  exact imagesOf.flip

/-! ## The functions of the table -/

/-- The faults of the functions of `memory.c`: an access through a pointer that an
unchecked allocation left null or indeterminate. -/
def AllocationFault (platform : Platform Content) (reason : Stop Empty) : Prop :=
  platform.MayFail ∧
    (reason = .fault .nullAccess ∨ reason = .fault .indeterminateAccess)

section Rules

variable {platform : Platform Content} {collections : Collections}
  [LawfulCollections platform collections memoryConf]
  {Result : Type} {table : Address} {cells : List Cell}
  {post : Result → Assertion Content}

omit [LawfulCollections platform collections memoryConf] in
/-- Making a container yields one, or fails. -/
theorem made_rule {create : Prog (CCStat × Pointer)} {out : Pointer}
    {containerAt : Address → Assertion Content} {owned : Assertion Content}
    (makes : Safe 1 create (made platform out containerAt))
    {next : CCStat × Pointer → Prog Result}
    (allocated : ∀ address, Triple (AllocationFault platform)
      (containerAt address * owned) (next (.ok, .target address)) post)
    (failed : platform.MayFail → ∀ stat,
      Triple (AllocationFault platform) owned (next (stat, out)) post) :
    Triple (AllocationFault platform) owned (create >>= next) post := by
  refine Triple.call (Triple.of_safe makes) (one_mul _).symm ?_
  rintro ⟨stat, container⟩
  rw [made, Quantale.sup_mul_distrib, Quantale.iSup_mul_distrib]
  apply Triple.sup
  · apply Triple.iSup
    intro address
    rw [mul_assoc]
    apply Triple.fact
    rintro ⟨⟩
    exact allocated address
  · apply Triple.fact
    rintro ⟨mayFail, -, (rfl : container = out)⟩
    exact failed mayFail stat

theorem ccHashtableGet_rule {query : Relocatable}
    {next : Except CCStat Pointer → Prog Result}
    (found : ∀ cell ∈ cells, cell.ptr = query →
      Triple (AllocationFault platform) (tableAt table cells)
        (next (.ok (.target cell.valueAddress))) post)
    (missing : (∀ cell ∈ cells, cell.ptr ≠ query) →
      Triple (AllocationFault platform) (tableAt table cells)
        (next (.error .errKeyNotFound)) post) :
    Triple (AllocationFault platform) (tableAt table cells)
      (collections.ccHashtableGet (.target table) query >>= next) post := by
  have search : Safe (keyedAt table (cells.map Cell.keyed))
      (collections.ccHashtableGet (.target table) query)
      fun result => fact (Finds memoryConf (cells.map Cell.keyed) query result) *
        keyedAt table (cells.map Cell.keyed) :=
    LawfulCollections.get platform table _ query
  refine Triple.call (Triple.of_safe search) rfl fun result => ?_
  rw [mul_assoc]
  apply Triple.fact
  intro finds
  cases finds with
  | found inEntries same =>
      obtain ⟨cell, member, rfl⟩ := List.mem_map.mp inEntries
      exact found cell member (keyCompare_eq_zero_iff.mp same).symm
  | missing absent =>
      apply missing
      intro cell member same
      exact absent cell.keyed (List.mem_map_of_mem member)
        (keyCompare_eq_zero_iff.mpr same.symm)

/-- A new key becomes an entry, unless the call is one that the table refuses. -/
theorem ccHashtableAdd_rule {cell : Cell} (absent : ∀ other ∈ cells, other.ptr ≠ cell.ptr)
    {next : CCStat → Prog Result}
    (added : ∀ entries : List Cell, entries.Perm (cell :: cells) →
      Triple (AllocationFault platform) (tableAt table entries) (next .ok) post)
    (refused : ∀ stat ≠ CCStat.ok, collections.MayRefuse →
      ∀ entries : List Cell, entries.Perm cells →
        Triple (AllocationFault platform) (tableAt table entries * cell.owned)
          (next stat) post) :
    Triple (AllocationFault platform) (tableAt table cells * cell.owned)
      (collections.ccHashtableAdd (.target table) (.target cell.keyAddress)
        (.target cell.valueAddress) >>= next) post := by
  have new : ∀ other ∈ cells.map Cell.keyed,
      memoryConf.keyCompare cell.keyed.key other.key ≠ 0 := by
    intro entry inEntries same
    obtain ⟨other, member, rfl⟩ := List.mem_map.mp inEntries
    exact absent other member (keyCompare_eq_zero_iff.mp same).symm
  have split : tableAt table cells * cell.owned =
      keyedAt table (cells.map Cell.keyed) * cell.keyed.keyAt *
        ((cell :: cells).map Cell.val).prod := by
    rw [tableAt, Cell.owned, List.map_cons, List.prod_cons]
    ac_rfl
  refine Triple.call (Triple.of_safe (LawfulCollections.add platform table
    (cells.map Cell.keyed) cell.keyed new)).returned split fun stat => ?_
  rw [mul_assoc]
  apply Triple.fact
  intro returned
  rw [Quantale.iSup_mul_distrib]
  apply Triple.iSup
  intro entries
  rw [mul_assoc]
  apply Triple.fact
  intro perm
  have regroup : entriesAt table (entries.map KeyedEntry.entry) *
      ((cell.keyed :: cells.map Cell.keyed).map KeyedEntry.keyAt).prod *
        ((cell :: cells).map Cell.val).prod =
      entriesAt table (entries.map KeyedEntry.entry) *
        ((cell :: cells).map Cell.owned).prod := by
    rw [← List.map_cons, mul_assoc, prod_owned]
  rw [regroup]
  by_cases accepted : stat = .ok
  · subst accepted
    rw [if_pos rfl, ← List.map_cons] at perm
    obtain ⟨others, reordered, rfl⟩ := exists_map_of_perm perm
    have grown := added others reordered
    rwa [tableAt_eq, (reordered.map Cell.owned).prod_eq] at grown
  · rw [if_neg accepted] at perm
    obtain ⟨others, reordered, rfl⟩ := exists_map_of_perm perm
    have kept := refused stat accepted ⟨_, _, _, _, accepted, returned⟩ others reordered
    rwa [tableAt_eq, (reordered.map Cell.owned).prod_eq, mul_assoc,
      mul_comm _ cell.owned, ← List.prod_cons, ← List.map_cons] at kept

end Rules
end CairoVM.OnHeap
