import Mathlib.Algebra.BigOperators.Group.List.Basic
import Mathlib.Algebra.Order.Quantale
import Mathlib.Order.ConditionallyCompleteLattice.Basic
import Mathlib.Order.CompletePartialOrder
import CairoVM.Library.Heap

/-!
# Triples about heap programs

An assertion describes the part of the heap that a program owns.  The product of two
assertions describes two parts that have no block in common, so assertions form a
commutative monoid, and a quantale under entailment.  A triple holds in every heap that
contains the owned part: the rest of the heap is neither read nor changed.
-/

namespace HeapLogic

variable {Content Error Result Next : Type}

/-! ## Heaps -/

theorem insert_eq_union (address : Address) (block : Block Content)
    (heap : Heap Content) :
    heap.insert address block = Finmap.singleton address block ∪ heap := by
  apply Finmap.ext_lookup
  intro other
  by_cases same : other = address
  · subst same
    rw [Finmap.lookup_insert, Finmap.lookup_union_left ((Finmap.mem_singleton _ _ _).mpr rfl),
      Finmap.lookup_singleton_eq]
  · rw [Finmap.lookup_insert_of_ne _ same,
      Finmap.lookup_union_right (mt (Finmap.mem_singleton _ _ _).mp same)]

private theorem disjoint_singleton {address : Address} {heap : Heap Content}
    (fresh : address ∉ heap) (block : Block Content) :
    (Finmap.singleton address block).Disjoint heap := by
  intro other atAddress inHeap
  rw [Finmap.mem_singleton] at atAddress
  exact fresh (atAddress ▸ inHeap)

private theorem notMem_of_disjoint {address : Address} {block : Block Content}
    {heap : Heap Content} (apart : (Finmap.singleton address block).Disjoint heap) :
    address ∉ heap :=
  apart address ((Finmap.mem_singleton _ _ _).mpr rfl)

private theorem erase_union {address : Address} {block : Block Content}
    {heap : Heap Content} (fresh : address ∉ heap) :
    (Finmap.singleton address block ∪ heap).erase address = heap := by
  apply Finmap.ext_lookup
  intro other
  by_cases same : other = address
  · subst same
    rw [Finmap.lookup_erase, Finmap.lookup_eq_none.mpr fresh]
  · rw [Finmap.lookup_erase_ne same,
      Finmap.lookup_union_right (mt (Finmap.mem_singleton _ _ _).mp same)]

/-! ## Assertions -/

/-- A property of a part of the heap. -/
abbrev Assertion (Content : Type) : Type := Heap Content → Prop

namespace Assertion

/-- The part of the heap is the given one. -/
def exactly (heap : Heap Content) : Assertion Content := fun part => part = heap

/-- The part splits into one for each factor. -/
instance : Mul (Assertion Content) where
  mul first second := fun heap => ∃ left right : Heap Content,
    left.Disjoint right ∧ heap = left ∪ right ∧ first left ∧ second right

instance : One (Assertion Content) := ⟨exactly ∅⟩

theorem one_apply {heap : Heap Content} : (1 : Assertion Content) heap ↔ heap = ∅ :=
  Iff.rfl

theorem mul_apply_mono {first second first' second' : Assertion Content}
    (left : first ≤ first') (right : second ≤ second') :
    first * second ≤ first' * second' := by
  rintro heap ⟨leftPart, rightPart, apart, rfl, inFirst, inSecond⟩
  exact ⟨leftPart, rightPart, apart, rfl, left _ inFirst, right _ inSecond⟩

private theorem star_comm_le (first second : Assertion Content) :
    first * second ≤ second * first := by
  rintro heap ⟨left, right, apart, rfl, inFirst, inSecond⟩
  exact ⟨right, left, apart.symm, Finmap.union_comm_of_disjoint apart, inSecond, inFirst⟩

private theorem star_assoc_le (first second third : Assertion Content) :
    first * second * third ≤ first * (second * third) := by
  rintro heap ⟨_, last, apart, rfl, inPair, inThird⟩
  obtain ⟨left, middle, inner, rfl, inFirst, inSecond⟩ := inPair
  rw [Finmap.disjoint_union_left] at apart
  refine ⟨left, middle ∪ last, ?_, Finmap.union_assoc, inFirst,
    ⟨middle, last, apart.2, rfl, inSecond, inThird⟩⟩
  rw [Finmap.disjoint_union_right]
  exact ⟨inner, apart.1⟩

instance : CommMonoid (Assertion Content) where
  mul_comm first second := le_antisymm (star_comm_le _ _) (star_comm_le _ _)
  mul_assoc first second third := by
    apply le_antisymm (star_assoc_le _ _ _)
    have commute : ∀ left right : Assertion Content, left * right = right * left :=
      fun _ _ => le_antisymm (star_comm_le _ _) (star_comm_le _ _)
    calc first * (second * third) = third * second * first := by
          rw [commute first, commute second]
      _ ≤ third * (second * first) := star_assoc_le _ _ _
      _ = first * second * third := by rw [commute third, commute second]
  one_mul assertion := by
    apply le_antisymm
    · rintro heap ⟨left, right, -, rfl, rfl, inside⟩
      rwa [Finmap.empty_union]
    · intro heap inside
      exact ⟨∅, heap, Finmap.disjoint_empty heap, Finmap.empty_union.symm, rfl, inside⟩
  mul_one assertion := by
    apply le_antisymm
    · rintro heap ⟨left, right, -, rfl, inside, rfl⟩
      rwa [Finmap.union_empty]
    · intro heap inside
      exact ⟨heap, ∅, (Finmap.disjoint_empty heap).symm, Finmap.union_empty.symm, inside,
        rfl⟩

instance : IsQuantale (Assertion Content) where
  mul_sSup_distrib assertion family := by
    apply le_antisymm
    · rintro heap ⟨left, right, apart, rfl, inside, inFamily⟩
      simp only [sSup_apply, iSup_Prop_eq, Subtype.exists] at inFamily
      obtain ⟨member, memberOf, holds⟩ := inFamily
      simp only [iSup_apply, iSup_Prop_eq, exists_prop]
      exact ⟨member, memberOf, left, right, apart, rfl, inside, holds⟩
    · simp only [iSup_le_iff]
      exact fun member memberOf => mul_apply_mono le_rfl (le_sSup memberOf)
  sSup_mul_distrib family assertion := by
    apply le_antisymm
    · rintro heap ⟨left, right, apart, rfl, inFamily, inside⟩
      simp only [sSup_apply, iSup_Prop_eq, Subtype.exists] at inFamily
      obtain ⟨member, memberOf, holds⟩ := inFamily
      simp only [iSup_apply, iSup_Prop_eq, exists_prop]
      exact ⟨member, memberOf, left, right, apart, rfl, holds, inside⟩
    · simp only [iSup_le_iff]
      exact fun member memberOf => mul_apply_mono (le_sSup memberOf) le_rfl

/-! ## Facts -/

/-- Nothing is owned, and the proposition holds. -/
def fact (proposition : Prop) : Assertion Content :=
  fun part => proposition ∧ part = ∅

theorem fact_of {proposition : Prop} (holds : proposition) :
    (fact proposition : Assertion Content) = 1 := by
  funext part
  simp [fact, one_apply, holds]

theorem fact_mono {proposition conclusion : Prop} (follows : proposition → conclusion) :
    (fact proposition : Assertion Content) ≤ fact conclusion :=
  fun _ => And.imp_left follows

theorem le_fact_mul {proposition : Prop} (holds : proposition)
    (assertion : Assertion Content) : assertion ≤ fact proposition * assertion := by
  rw [fact_of holds, one_mul]

theorem fact_mul_apply {proposition : Prop} {assertion : Assertion Content}
    {heap : Heap Content} :
    ((fact proposition : Assertion Content) * assertion) heap ↔
      proposition ∧ assertion heap := by
  constructor
  · rintro ⟨left, right, -, rfl, ⟨holds, rfl⟩, inside⟩
    rw [Finmap.empty_union]
    exact ⟨holds, inside⟩
  · rintro ⟨holds, inside⟩
    rwa [fact_of holds, one_mul]

theorem iSup_fact_mul_apply {Index : Type*} {holds : Index → Prop}
    {family : Index → Assertion Content} {heap : Heap Content} :
    (⨆ index, fact (holds index) * family index : Assertion Content) heap ↔
      ∃ index, holds index ∧ family index heap := by
  simp only [iSup_apply, iSup_Prop_eq, fact_mul_apply]

/-! ## Single blocks -/

/-- The part of the heap is one block. -/
def pointsTo (address : Address) (block : Block Content) : Assertion Content :=
  exactly (Finmap.singleton address block)

/-- The owned part has this block. -/
def Has (assertion : Assertion Content) (address : Address) (block : Block Content) :
    Prop :=
  ∀ heap, assertion heap → heap.lookup address = some block

theorem has_exactly {heap : Heap Content} {address : Address} {block : Block Content}
    (found : heap.lookup address = some block) : (exactly heap).Has address block := by
  rintro part rfl
  exact found

theorem has_pointsTo (address : Address) (block : Block Content) :
    (pointsTo address block).Has address block :=
  has_exactly Finmap.lookup_singleton_eq

theorem Has.mul_right {assertion : Assertion Content} {address : Address}
    {block : Block Content} (has : assertion.Has address block)
    (other : Assertion Content) : (assertion * other).Has address block := by
  rintro heap ⟨left, right, -, rfl, inside, -⟩
  have found := has left inside
  rw [Finmap.lookup_union_left (Finmap.mem_of_lookup_eq_some found), found]

theorem Has.mul_left {assertion : Assertion Content} {address : Address}
    {block : Block Content} (has : assertion.Has address block)
    (other : Assertion Content) : (other * assertion).Has address block := by
  rw [mul_comm]
  exact has.mul_right other

theorem Has.prod {assertions : List (Assertion Content)} {assertion : Assertion Content}
    {address : Address} {block : Block Content} (has : assertion.Has address block)
    (member : assertion ∈ assertions) : assertions.prod.Has address block := by
  induction assertions with
  | nil => cases member
  | cons head rest ih =>
      rw [List.prod_cons]
      rcases List.mem_cons.mp member with rfl | later
      · exact has.mul_right _
      · exact (ih later).mul_left _

/-- A block under a fresh address is apart from the rest of the heap. -/
theorem pointsTo_mul_insert {assertion : Assertion Content} {heap : Heap Content}
    {address : Address} (inside : assertion heap) (fresh : address ∉ heap)
    (block : Block Content) :
    (pointsTo address block * assertion) (heap.insert address block) :=
  ⟨Finmap.singleton address block, heap, disjoint_singleton fresh block,
    insert_eq_union address block heap, rfl, inside⟩

/-- Rewriting an owned block. -/
theorem pointsTo_mul_update {assertion : Assertion Content} {heap : Heap Content}
    {address : Address} {block : Block Content}
    (inside : (pointsTo address block * assertion) heap) (other : Block Content) :
    (pointsTo address other * assertion) (heap.insert address other) := by
  obtain ⟨_, right, apart, rfl, rfl, inRest⟩ := inside
  rw [Finmap.insert_union, Finmap.insert_singleton_eq]
  refine ⟨Finmap.singleton address other, right, ?_, rfl, rfl, inRest⟩
  exact disjoint_singleton (notMem_of_disjoint apart) other

/-- Giving up an owned block. -/
theorem pointsTo_mul_erase {assertion : Assertion Content} {heap : Heap Content}
    {address : Address} {block : Block Content}
    (inside : (pointsTo address block * assertion) heap) :
    assertion (heap.erase address) := by
  obtain ⟨_, right, apart, rfl, rfl, inRest⟩ := inside
  rwa [erase_union (notMem_of_disjoint apart)]

/-- A part of the heap is any of its blocks beside the others. -/
theorem exactly_eq_pointsTo_mul {heap : Heap Content} {address : Address}
    {block : Block Content} (found : heap.lookup address = some block) :
    exactly heap = pointsTo address block * exactly (heap.erase address) := by
  have fresh : address ∉ heap.erase address := by simp
  have whole : Finmap.singleton address block ∪ heap.erase address = heap := by
    rw [← insert_eq_union]
    apply Finmap.ext_lookup
    intro other
    by_cases same : other = address
    · rw [same, Finmap.lookup_insert, found]
    · rw [Finmap.lookup_insert_of_ne _ same, Finmap.lookup_erase_ne same]
  funext part
  apply propext
  constructor
  · rintro rfl
    exact ⟨_, _, disjoint_singleton fresh block, whole.symm, rfl, rfl⟩
  · rintro ⟨_, _, -, rfl, rfl, rfl⟩
    exact whole

end Assertion

/-! ## Triples -/

/-- The program returns with the postcondition, or stops for an allowed reason. -/
def Meets (mayStop : Stop Error → Prop) (post : Result → Assertion Content) :
    Except (Stop Error) (Result × Heap Content) → Prop
  | .ok (result, heap) => post result heap
  | .error reason => mayStop reason

/-- Run in any heap that contains the owned part, the program returns with the
postcondition, or stops for an allowed reason; the rest of the heap is as before. -/
def Triple (mayStop : Stop Error → Prop) (pre : Assertion Content)
    (program : Program Content Error Result) (post : Result → Assertion Content) : Prop :=
  ∀ (rest : Assertion Content) (heap : Heap Content), (pre * rest) heap →
    Meets mayStop (fun result => post result * rest) (program heap)

/-- The program returns with the postcondition. -/
abbrev Safe (pre : Assertion Content) (program : Program Content Error Result)
    (post : Result → Assertion Content) : Prop :=
  Triple (fun _ => False) pre program post

namespace Triple

variable {mayStop : Stop Error → Prop} {pre : Assertion Content}
  {program : Program Content Error Result} {post : Result → Assertion Content}
  {platform : Platform Content}

/-! ### Structural rules -/

theorem frame (triple : Triple mayStop pre program post) (rest : Assertion Content) :
    Triple mayStop (pre * rest) program (fun result => post result * rest) := by
  intro others heap inside
  rw [mul_assoc] at inside
  have meets := triple (rest * others) heap inside
  simpa only [mul_assoc] using meets

theorem consequence {pre' : Assertion Content} {post' : Result → Assertion Content}
    (triple : Triple mayStop pre program post) (weaken : pre' ≤ pre)
    (strengthen : ∀ result, post result ≤ post' result) :
    Triple mayStop pre' program post' := by
  intro rest heap inside
  have meets := triple rest heap (Assertion.mul_apply_mono weaken le_rfl heap inside)
  revert meets
  rcases program heap with reason | ⟨result, after⟩
  · exact id
  · exact Assertion.mul_apply_mono (strengthen result) le_rfl after

theorem weaken_stop {mayStop' : Stop Error → Prop}
    (triple : Triple mayStop pre program post)
    (weaken : ∀ reason, mayStop reason → mayStop' reason) :
    Triple mayStop' pre program post := by
  intro rest heap inside
  have meets := triple rest heap inside
  revert meets
  rcases program heap with reason | ⟨result, after⟩
  · exact weaken reason
  · exact id

theorem of_safe (safe : Safe pre program post) : Triple mayStop pre program post :=
  safe.weaken_stop fun _ => False.elim

/-- Whatever a program returns, there is a run that returns it. -/
theorem returned (triple : Triple mayStop pre program post) :
    Triple mayStop pre program fun result =>
      Assertion.fact (∃ rest heap after, (pre * rest) heap ∧
        program heap = .ok (result, after)) * post result := by
  intro rest heap inside
  have meets := triple rest heap inside
  cases ran : program heap with
  | error reason => rwa [ran] at meets
  | ok outcome =>
      rw [ran] at meets
      simp only [Meets, mul_assoc] at meets ⊢
      exact Assertion.fact_mul_apply.mpr ⟨⟨rest, heap, outcome.2, inside, ran⟩, meets⟩

theorem iSup {Index : Type*} {family : Index → Assertion Content}
    (each : ∀ index, Triple mayStop (family index) program post) :
    Triple mayStop (⨆ index, family index) program post := by
  intro rest heap inside
  rw [Quantale.iSup_mul_distrib, iSup_apply, iSup_Prop_eq] at inside
  obtain ⟨index, holds⟩ := inside
  exact each index rest heap holds

/-- Nothing is reached after a program that does not return. -/
theorem bot : Triple mayStop ⊥ program post := by
  rintro rest heap ⟨_, _, -, -, impossible, -⟩
  exact impossible.elim

theorem sup {other : Assertion Content} (first : Triple mayStop pre program post)
    (second : Triple mayStop other program post) :
    Triple mayStop (pre ⊔ other) program post := by
  intro rest heap inside
  rw [Quantale.sup_mul_distrib] at inside
  exact inside.elim (first rest heap) (second rest heap)

theorem fact {proposition : Prop} (given : proposition → Triple mayStop pre program post) :
    Triple mayStop (Assertion.fact proposition * pre) program post := by
  intro rest heap inside
  rw [mul_assoc, Assertion.fact_mul_apply] at inside
  exact given inside.1 rest heap inside.2

/-- An owned block is not a block of another owned part. -/
theorem apart {address : Address} {block : Block Content} {heap : Heap Content}
    {owned : Assertion Content}
    (split : pre = Assertion.pointsTo address block * (Assertion.exactly heap * owned))
    (given : address ∉ heap → Triple mayStop pre program post) :
    Triple mayStop pre program post := by
  subst split
  intro rest whole inside
  refine given ?_ rest whole inside
  obtain ⟨_, _, -, -, pair, -⟩ := inside
  obtain ⟨_, _, disjoint, -, rfl, others⟩ := pair
  obtain ⟨_, _, -, rfl, rfl, -⟩ := others
  exact notMem_of_disjoint ((Finmap.disjoint_union_right _ _ _).mp disjoint).1

theorem pure (result : Result) (entails : pre ≤ post result) :
    Triple mayStop pre (pure result : Program Content Error Result) post :=
  fun _ heap inside => Assertion.mul_apply_mono entails le_rfl heap inside

theorem bind {middle : Result → Assertion Content}
    {next : Result → Program Content Error Next} {post : Next → Assertion Content}
    (first : Triple mayStop pre program middle)
    (second : ∀ result, Triple mayStop (middle result) (next result) post) :
    Triple mayStop pre (program >>= next) post := by
  intro rest heap inside
  have meets := first rest heap inside
  change Meets mayStop _ ((program heap).bind fun outcome => next outcome.1 outcome.2)
  revert meets
  rcases program heap with reason | ⟨result, after⟩
  · exact id
  · exact second result rest after

/-- Call a function that needs only part of what is owned. -/
theorem call {owned rest : Assertion Content} {middle : Result → Assertion Content}
    {next : Result → Program Content Error Next} {post : Next → Assertion Content}
    (first : Triple mayStop owned program middle) (split : pre = owned * rest)
    (second : ∀ result, Triple mayStop (middle result * rest) (next result) post) :
    Triple mayStop pre (program >>= next) post := by
  subst split
  exact (first.frame rest).bind second

/-- Call a function that only reads. -/
theorem reads {owned rest : Assertion Content} {value : Result}
    {next : Result → Program Content Error Next} {post : Next → Assertion Content}
    (first : Triple mayStop owned program
      fun result => Assertion.fact (result = value) * owned)
    (split : pre = owned * rest) (goOn : Triple mayStop pre (next value) post) :
    Triple mayStop pre (program >>= next) post := by
  refine call first split fun result => ?_
  rw [mul_assoc]
  apply fact
  rintro rfl
  rwa [← split]

/-- It is enough to consider each part of the heap that may be owned. -/
theorem of_exactly
    (each : ∀ part, pre part → Triple mayStop (Assertion.exactly part) program post) :
    Triple mayStop pre program post := by
  rintro rest heap ⟨part, others, apart, rfl, inside, beside⟩
  exact each part inside rest _ ⟨part, others, apart, rfl, rfl, beside⟩

/-- Call a function that only reads one of the owned blocks. -/
theorem of_has {address : Address} {block : Block Content} {returns : Result → Prop}
    (has : pre.Has address block)
    (reading : Triple mayStop (Assertion.pointsTo address block) program
      fun result => Assertion.fact (returns result) * Assertion.pointsTo address block) :
    Triple mayStop pre program fun result => Assertion.fact (returns result) * pre := by
  apply of_exactly
  intro part inside
  have split := Assertion.exactly_eq_pointsTo_mul (has part inside)
  rw [split]
  refine (reading.frame _).consequence le_rfl fun result => ?_
  rw [mul_assoc, ← split]
  refine Assertion.mul_apply_mono le_rfl ?_
  rintro _ rfl
  exact inside

/-- Handle the items of a list one after the other, when each needs only its own
part. -/
theorem forM {Item : Type} {owned done : Item → Assertion Content}
    {body : Item → Program Content Error PUnit} {items : List Item}
    (each : ∀ item ∈ items, Triple mayStop (owned item) (body item) fun _ => done item) :
    Triple mayStop (items.map owned).prod (items.forM body)
      fun _ => (items.map done).prod := by
  induction items with
  | nil => exact pure _ le_rfl
  | cons item rest ih =>
      refine call (each item (by simp)) List.prod_cons fun _ => ?_
      have later := ih fun other member => each other (List.mem_cons_of_mem _ member)
      refine (later.frame (done item)).consequence (mul_comm _ _).le fun _ => ?_
      rw [List.map_cons, List.prod_cons, mul_comm]

/-! ### The operations -/

/-! Each rule runs one operation and goes on with the rest of the program. -/

theorem load {address : Address} {block : Block Content} (has : pre.Has address block)
    {next : Content → Program Content Error Result}
    (goOn : Triple mayStop pre (next block.content) post) :
    Triple mayStop pre (HeapLogic.load (.target address) >>= next) post := by
  intro rest heap inside
  have found := has.mul_right rest heap inside
  have step : (HeapLogic.load (.target address) >>= next : Program Content Error Result) heap =
      next block.content heap := by
    change Except.bind (HeapLogic.load (.target address) heap) _ = _
    simp only [HeapLogic.load, found, Except.bind]
  rw [step]
  exact goOn rest heap inside

theorem stop {reason : Stop Error} (allowed : mayStop reason)
    {next : Result → Program Content Error Next} {post : Next → Assertion Content} :
    Triple mayStop pre (HeapLogic.stop reason >>= next) post :=
  fun _ _ _ => allowed

theorem loadAs {Value : Type} {select : Content → Option Value} {address : Address}
    {block : Block Content} {value : Value} (has : pre.Has address block)
    (selects : select block.content = some value)
    {next : Value → Program Content Error Result}
    (goOn : Triple mayStop pre (next value) post) :
    Triple mayStop pre (HeapLogic.loadAs select (.target address) >>= next) post := by
  rw [HeapLogic.loadAs, bind_assoc]
  apply load has
  rwa [selects, pure_bind]

/-- The same rule at the end of a program. -/
theorem loadAs_last {Value : Type} {select : Content → Option Value} {address : Address}
    {block : Block Content} {value : Value} (has : pre.Has address block)
    (selects : select block.content = some value) :
    Triple mayStop pre
      (HeapLogic.loadAs select (.target address) : Program Content Error Value)
      fun result => Assertion.fact (result = value) * pre := by
  rw [← bind_pure (HeapLogic.loadAs select (.target address))]
  exact loadAs has selects (pure _ (Assertion.le_fact_mul rfl _))

theorem store_null (allowed : mayStop (.fault .nullAccess)) {content : Content}
    {next : PUnit → Program Content Error Result} :
    Triple mayStop pre (HeapLogic.store .null content >>= next) post :=
  fun _ _ _ => allowed

theorem store {address : Address} {block : Block Content} {content : Content}
    {owned : Assertion Content} (split : pre = Assertion.pointsTo address block * owned)
    {next : PUnit → Program Content Error Result}
    (goOn : Triple mayStop (Assertion.pointsTo address ⟨block.storage, content⟩ * owned)
      (next ()) post) :
    Triple mayStop pre (HeapLogic.store (.target address) content >>= next) post := by
  subst split
  intro rest heap inside
  have found := ((Assertion.has_pointsTo address block).mul_right owned).mul_right rest
    heap inside
  have step : (HeapLogic.store (.target address) content >>= next :
      Program Content Error Result) heap =
      next () (heap.insert address ⟨block.storage, content⟩) := by
    change Except.bind (HeapLogic.store (.target address) content heap) _ = _
    simp only [HeapLogic.store, found, Except.bind]
  rw [step]
  apply goOn rest
  rw [mul_assoc] at inside ⊢
  exact Assertion.pointsTo_mul_update inside _

/-- The same rule at the end of a program. -/
theorem store_last {address : Address} {block : Block Content} {content : Content} :
    Triple mayStop (Assertion.pointsTo address block)
      (HeapLogic.store (.target address) content : Program Content Error Unit)
      fun _ => Assertion.pointsTo address ⟨block.storage, content⟩ := by
  rw [← bind_pure (HeapLogic.store (.target address) content)]
  refine store (mul_one _).symm (pure _ ?_)
  rw [mul_one]

theorem free {address : Address} {content : Content} {owned : Assertion Content}
    (split : pre = Assertion.pointsTo address ⟨.dynamic, content⟩ * owned)
    {next : PUnit → Program Content Error Result}
    (goOn : Triple mayStop owned (next ()) post) :
    Triple mayStop pre (HeapLogic.free (.target address) >>= next) post := by
  subst split
  intro rest heap inside
  have found := ((Assertion.has_pointsTo address ⟨.dynamic, content⟩).mul_right
    owned).mul_right rest heap inside
  have step : (HeapLogic.free (.target address) >>= next : Program Content Error Result) heap =
      next () (heap.erase address) := by
    change Except.bind (HeapLogic.free (.target address) heap) _ = _
    simp only [HeapLogic.free, found, Except.bind]
  rw [step]
  apply goOn rest
  rw [mul_assoc] at inside
  exact Assertion.pointsTo_mul_erase inside

/-- The same rule at the end of a program. -/
theorem free_last {address : Address} {content : Content} {owned : Assertion Content}
    (split : pre = Assertion.pointsTo address ⟨.dynamic, content⟩ * owned) :
    Triple mayStop pre (HeapLogic.free (.target address) : Program Content Error Unit)
      fun _ => owned := by
  rw [← bind_pure (HeapLogic.free (.target address))]
  exact free split (pure _ le_rfl)

/-- An allocation yields a block of its own, or fails. -/
theorem malloc_cases {initial : Content} {next : Pointer → Program Content Error Result}
    (failed : ∀ heap, platform.place heap initial = none →
      Triple mayStop pre (next .null) post)
    (placed : ∀ heap address, platform.place heap initial = some address →
      Triple mayStop (Assertion.pointsTo address ⟨.dynamic, initial⟩ * pre)
        (next (.target address)) post) :
    Triple mayStop pre (HeapLogic.malloc platform initial >>= next) post := by
  intro rest heap inside
  change Meets _ _ (Except.bind (HeapLogic.malloc platform initial heap) _)
  cases outcome : platform.place heap initial with
  | none =>
      simp only [HeapLogic.malloc, outcome, Except.bind]
      exact failed heap outcome rest heap inside
  | some address =>
      simp only [HeapLogic.malloc, outcome, Except.bind]
      apply placed heap address outcome rest
      rw [mul_assoc]
      exact Assertion.pointsTo_mul_insert inside (platform.place_fresh outcome) _

theorem malloc {initial : Content} {next : Pointer → Program Content Error Result}
    (failed : platform.MayFail → Triple mayStop pre (next .null) post)
    (placed : ∀ address, Triple mayStop
      (Assertion.pointsTo address ⟨.dynamic, initial⟩ * pre) (next (.target address)) post) :
    Triple mayStop pre (HeapLogic.malloc platform initial >>= next) post :=
  malloc_cases (fun heap outcome => failed ⟨heap, initial, outcome⟩)
    fun _ address _ => placed address

/-- The body of a block owns its local variable, and gives it back. -/
theorem withLocal {initial : Content} {body : Pointer → Program Content Error Result}
    (inside : ∀ address, Triple mayStop
      (Assertion.pointsTo address ⟨.automatic, initial⟩ * pre) (body (.target address))
      fun result => (⨆ block, Assertion.pointsTo address block) * post result) :
    Triple mayStop pre (HeapLogic.withLocal platform initial body) post := by
  intro rest heap holds
  have entered := Assertion.pointsTo_mul_insert holds
    (platform.placeLocal_fresh heap initial) ⟨.automatic, initial⟩
  rw [← mul_assoc] at entered
  simp only [HeapLogic.withLocal]
  generalize platform.placeLocal heap initial = address at entered ⊢
  have meets := inside address rest _ entered
  revert meets
  rcases body (.target address) (heap.insert address ⟨.automatic, initial⟩) with
    reason | ⟨result, after⟩
  · exact id
  · intro meets
    simp only [Meets, mul_assoc] at meets
    rw [Quantale.iSup_mul_distrib, iSup_apply, iSup_Prop_eq] at meets
    obtain ⟨block, owned⟩ := meets
    exact Assertion.pointsTo_mul_erase owned

/-! ### What a triple says about a run -/

/-- A program that gives back a part of the heap ends with that part and what its
postcondition describes. -/
theorem run {heap kept : Heap Content}
    (triple : Triple mayStop pre program
      fun result => post result * Assertion.exactly kept) (start : pre heap) :
    (∃ result added, program heap = .ok (result, added ∪ kept) ∧
      added.Disjoint kept ∧ post result added) ∨
    ∃ reason, program heap = .error reason ∧ mayStop reason := by
  have whole : (pre * 1) heap := by rwa [mul_one]
  have meets := triple 1 heap whole
  simp only [mul_one] at meets
  revert meets
  rcases program heap with reason | ⟨result, after⟩
  · exact fun allowed => .inr ⟨reason, rfl, allowed⟩
  · rintro ⟨added, _, apart, rfl, owned, rfl⟩
    exact .inl ⟨result, added, rfl, apart, owned⟩

end Triple
end HeapLogic
