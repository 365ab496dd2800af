import Mathlib.Data.Fintype.EquivFin
import Mathlib.Data.List.Perm.Basic

/-!
# Write-once contents

A write-once store maps keys to optional values, and a key keeps the first value
it receives.  This module studies sequences of writes into such a store: when a
sequence is accepted in full, what the store then holds, and what is left behind
by a loop that stops at the first refused write.

Acceptance of a whole sequence is the symmetric condition `Consistent`, so it does
not depend on the order of the writes; every order then gives the same contents.
-/

namespace WriteOnce

variable {Key Value : Type*}

/-- What a store holds: every key has at most one value. -/
abbrev Contents (Key Value : Type*) := Key → Option Value

/-- `later.Extends earlier`: every value readable earlier is still readable. -/
def Contents.Extends (later earlier : Contents Key Value) : Prop :=
  ∀ key value, earlier key = some value → later key = some value

@[refl] theorem Contents.Extends.refl (cells : Contents Key Value) :
    cells.Extends cells :=
  fun _ _ present => present

theorem Contents.Extends.trans {last middle first : Contents Key Value}
    (later : last.Extends middle) (earlier : middle.Extends first) :
    last.Extends first :=
  fun key value present => later key value (earlier key value present)

/-- The write does not contradict what the store holds at its key. -/
def Agrees (cells : Contents Key Value) (write : Key × Value) : Prop :=
  ∀ held, cells write.1 = some held → held = write.2

theorem agrees_of_none {cells : Contents Key Value} {write : Key × Value}
    (empty : cells write.1 = none) : Agrees cells write := by
  intro held present
  rw [empty] at present
  cases present

theorem Agrees.of_extends {later earlier : Contents Key Value}
    {write : Key × Value} (grows : later.Extends earlier)
    (agrees : Agrees later write) : Agrees earlier write :=
  fun held present => agrees held (grows write.1 held present)

instance [DecidableEq Value] (cells : Contents Key Value)
    (write : Key × Value) : Decidable (Agrees cells write) :=
  match present : cells write.1 with
  | none => isTrue (agrees_of_none present)
  | some held =>
      if equal : held = write.2 then
        isTrue fun other otherPresent => by
          rw [present] at otherPresent
          exact (Option.some.inj otherPresent).symm.trans equal
      else
        isFalse fun agrees => equal (agrees held present)

section Writes

variable [DecidableEq Key]

/-- Store a value at a key that has none; a key that has one keeps it. -/
def put (cells : Contents Key Value) (write : Key × Value) : Contents Key Value :=
  fun key => if key = write.1 then (cells key).or (some write.2) else cells key

theorem put_self (cells : Contents Key Value) (write : Key × Value) :
    put cells write write.1 = (cells write.1).or (some write.2) := by
  simp [put]

theorem put_of_ne {cells : Contents Key Value} {write : Key × Value} {key : Key}
    (different : key ≠ write.1) : put cells write key = cells key := by
  simp [put, different]

/-- A write that agrees with the store adds exactly its own entry. -/
theorem put_eq_some_iff {cells : Contents Key Value} {write : Key × Value}
    (agrees : Agrees cells write) (key : Key) (value : Value) :
    put cells write key = some value ↔
      cells key = some value ∨ (key, value) = write := by
  obtain ⟨target, written⟩ := write
  by_cases same : key = target
  · subst same
    cases present : cells key with
    | none => simp [put, present, eq_comm]
    | some held =>
        have heldEq : held = written := agrees held present
        subst heldEq
        simp [put, present, eq_comm]
  · simp [put, same]

theorem put_extends (cells : Contents Key Value) (write : Key × Value) :
    (put cells write).Extends cells := by
  intro key value present
  by_cases same : key = write.1
  · subst same
    rw [put_self, present, Option.some_or]
  · rw [put_of_ne same, present]

/-- Rewriting a value that is already stored changes nothing. -/
theorem put_of_eq_some {cells : Contents Key Value} {write : Key × Value}
    (present : cells write.1 = some write.2) : put cells write = cells := by
  funext key
  by_cases same : key = write.1
  · subst same
    rw [put_self, present, Option.some_or]
  · exact put_of_ne same

/-- Perform a list of writes from left to right. -/
def putAll (cells : Contents Key Value) (writes : List (Key × Value)) :
    Contents Key Value :=
  writes.foldl put cells

@[simp] theorem putAll_nil (cells : Contents Key Value) :
    putAll cells [] = cells := rfl

@[simp] theorem putAll_cons (cells : Contents Key Value) (write : Key × Value)
    (writes : List (Key × Value)) :
    putAll cells (write :: writes) = putAll (put cells write) writes := rfl

theorem putAll_append (cells : Contents Key Value)
    (first second : List (Key × Value)) :
    putAll cells (first ++ second) = putAll (putAll cells first) second :=
  List.foldl_append

end Writes

/-! ## Consistent write lists -/

/-- The writes contradict neither the store nor one another. -/
structure Consistent (cells : Contents Key Value)
    (writes : List (Key × Value)) : Prop where
  agrees : ∀ write ∈ writes, Agrees cells write
  coherent : ∀ write ∈ writes, ∀ other ∈ writes,
    write.1 = other.1 → write.2 = other.2

@[simp] theorem consistent_nil (cells : Contents Key Value) :
    Consistent cells [] :=
  ⟨by simp, by simp⟩

/-- Consistency only looks at which writes occur, not where. -/
theorem Consistent.of_subset {cells : Contents Key Value}
    {writes others : List (Key × Value)} (consistent : Consistent cells writes)
    (subset : others ⊆ writes) : Consistent cells others where
  agrees write member := consistent.agrees write (subset member)
  coherent write member other otherMember :=
    consistent.coherent write (subset member) other (subset otherMember)

theorem Consistent.perm {cells : Contents Key Value}
    {writes others : List (Key × Value)} (consistent : Consistent cells writes)
    (reordered : writes.Perm others) : Consistent cells others :=
  consistent.of_subset reordered.symm.subset

/-! ## Recorded writes -/

/-- Every write of the list is in the store already. -/
def Recorded (cells : Contents Key Value) (writes : List (Key × Value)) : Prop :=
  ∀ write ∈ writes, cells write.1 = some write.2

theorem Recorded.of_extends {later earlier : Contents Key Value}
    {writes : List (Key × Value)} (grows : later.Extends earlier)
    (recorded : Recorded earlier writes) : Recorded later writes :=
  fun write member => grows write.1 write.2 (recorded write member)

theorem Recorded.agrees {cells : Contents Key Value} {writes : List (Key × Value)}
    (recorded : Recorded cells writes) {write : Key × Value} (member : write ∈ writes) :
    Agrees cells write := by
  intro held present
  exact Option.some.inj (present.symm.trans (recorded write member))

section Writes

variable [DecidableEq Key]

/-- A consistent list is one whose first write agrees with the store and whose
remaining writes are consistent with the store that this write leaves. -/
theorem consistent_cons_iff {cells : Contents Key Value} {write : Key × Value}
    {writes : List (Key × Value)} :
    Consistent cells (write :: writes) ↔
      Agrees cells write ∧ Consistent (put cells write) writes := by
  constructor
  · intro consistent
    have agrees := consistent.agrees write (by simp)
    refine ⟨agrees, ?_, ?_⟩
    · intro other member held present
      rcases (put_eq_some_iff agrees other.1 held).mp present with before | written
      · exact consistent.agrees other (by simp [member]) held before
      · have sameKey : write.1 = other.1 := by rw [← written]
        have sameValue : write.2 = other.2 :=
          consistent.coherent write (by simp) other (by simp [member]) sameKey
        rw [← sameValue, ← written]
    · intro other member another anotherMember
      exact consistent.coherent other (by simp [member]) another
        (by simp [anotherMember])
  · rintro ⟨agrees, rest⟩
    have stored : put cells write write.1 = some write.2 :=
      (put_eq_some_iff agrees _ _).mpr (Or.inr rfl)
    have headCoherent : ∀ other ∈ writes,
        write.1 = other.1 → write.2 = other.2 := by
      intro other member sameKey
      exact rest.agrees other member write.2 (sameKey ▸ stored)
    constructor
    · intro other member
      rcases List.mem_cons.mp member with isHead | isRest
      · rw [isHead]
        exact agrees
      · exact (rest.agrees other isRest).of_extends (put_extends cells write)
    · intro other member another anotherMember sameKey
      rcases List.mem_cons.mp member with isHead | isRest <;>
        rcases List.mem_cons.mp anotherMember with isHead' | isRest'
      · rw [isHead, isHead']
      · subst isHead
        exact headCoherent another isRest' sameKey
      · subst isHead'
        exact (headCoherent other isRest sameKey.symm).symm
      · exact rest.coherent other isRest another isRest' sameKey

theorem consistent_append_iff {cells : Contents Key Value}
    {first second : List (Key × Value)} :
    Consistent cells (first ++ second) ↔
      Consistent cells first ∧ Consistent (putAll cells first) second := by
  induction first generalizing cells with
  | nil => simp
  | cons write first ih =>
      simp only [List.cons_append, consistent_cons_iff, ih, putAll_cons, and_assoc]

/-- After consistent writes the store holds what it held before and what was
written, and nothing else. -/
theorem Consistent.putAll_eq_some_iff {cells : Contents Key Value}
    {writes : List (Key × Value)} (consistent : Consistent cells writes)
    (key : Key) (value : Value) :
    putAll cells writes key = some value ↔
      cells key = some value ∨ (key, value) ∈ writes := by
  induction writes generalizing cells with
  | nil => simp
  | cons write writes ih =>
      obtain ⟨agrees, rest⟩ := consistent_cons_iff.mp consistent
      rw [putAll_cons, ih rest, put_eq_some_iff agrees, List.mem_cons, or_assoc]

/-- Consistent writes are in the store once they have been performed. -/
theorem Consistent.recorded {cells : Contents Key Value} {writes : List (Key × Value)}
    (consistent : Consistent cells writes) : Recorded (putAll cells writes) writes :=
  fun _ member => (consistent.putAll_eq_some_iff _ _).mpr (Or.inr member)

/-- Consistent writes may be reordered without changing the resulting store. -/
theorem Consistent.putAll_perm {cells : Contents Key Value}
    {writes others : List (Key × Value)} (consistent : Consistent cells writes)
    (reordered : writes.Perm others) :
    putAll cells writes = putAll cells others := by
  funext key
  apply Option.ext
  intro value
  rw [consistent.putAll_eq_some_iff,
    (consistent.perm reordered).putAll_eq_some_iff, reordered.mem_iff]

/-- Any contents over a finite set of keys can be written into an empty store, by writes
that the contents already have. -/
theorem exists_recorded_putAll_eq [Finite Key] (contents : Contents Key Value) :
    ∃ writes, Recorded contents writes ∧ putAll (fun _ => none) writes = contents := by
  have := Fintype.ofFinite Key
  let entry (key : Key) : Option (Key × Value) := (contents key).map fun value => (key, value)
  let writes := (Finset.univ : Finset Key).toList.filterMap entry
  have member : ∀ key value, (key, value) ∈ writes ↔ contents key = some value := by
    intro key value
    simp [writes, entry]
  have recorded : Recorded contents writes :=
    fun write written => (member write.1 write.2).mp written
  have consistent : Consistent (fun _ => none) writes := by
    refine ⟨fun _ _ => agrees_of_none rfl, fun write written other otherWritten same => ?_⟩
    have first := recorded write written
    rw [same] at first
    exact Option.some.inj (first.symm.trans (recorded other otherWritten))
  refine ⟨writes, recorded, funext fun key => Option.ext fun value => ?_⟩
  rw [consistent.putAll_eq_some_iff, member]
  simp

/-! ## Loops that stop at the first refused write -/

section Attempt

variable [DecidableEq Value] (permits : Key → Prop) [DecidablePred permits]

/-- A write is accepted when its key may be written and it agrees with the
store. -/
def Accepts (cells : Contents Key Value) (write : Key × Value) : Prop :=
  permits write.1 ∧ Agrees cells write

instance (cells : Contents Key Value) (write : Key × Value) :
    Decidable (Accepts permits cells write) :=
  inferInstanceAs (Decidable (_ ∧ _))

/-- Perform writes from left to right until one is refused.  The Boolean tells
whether all of them were accepted. -/
def attempt (cells : Contents Key Value) :
    List (Key × Value) → Bool × Contents Key Value
  | [] => (true, cells)
  | write :: writes =>
      if Accepts permits cells write then attempt (put cells write) writes
      else (false, cells)

/-- The whole list is accepted exactly when every key may be written and the
writes are consistent. -/
theorem attempt_fst_iff (cells : Contents Key Value)
    (writes : List (Key × Value)) :
    (attempt permits cells writes).1 = true ↔
      (∀ write ∈ writes, permits write.1) ∧ Consistent cells writes := by
  induction writes generalizing cells with
  | nil => simp [attempt]
  | cons write writes ih =>
      by_cases accepted : Accepts permits cells write
      · rw [attempt, if_pos accepted, ih, consistent_cons_iff, List.forall_mem_cons]
        have permitted := accepted.1
        have agrees := accepted.2
        tauto
      · rw [attempt, if_neg accepted, consistent_cons_iff, List.forall_mem_cons]
        constructor
        · intro impossible
          cases impossible
        · rintro ⟨⟨permitted, -⟩, agrees, -⟩
          exact absurd ⟨permitted, agrees⟩ accepted

/-- An accepted list is written in full. -/
theorem attempt_snd_of_accepted {cells : Contents Key Value}
    {writes : List (Key × Value)}
    (accepted : (attempt permits cells writes).1 = true) :
    (attempt permits cells writes).2 = putAll cells writes := by
  induction writes generalizing cells with
  | nil => rfl
  | cons write writes ih =>
      by_cases head : Accepts permits cells write
      · rw [attempt, if_pos head] at accepted ⊢
        exact ih accepted
      · rw [attempt, if_neg head] at accepted
        cases accepted

/-- Writes that are in the store already are all accepted and change nothing. -/
theorem attempt_of_recorded {cells : Contents Key Value} {writes : List (Key × Value)}
    (permitted : ∀ write ∈ writes, permits write.1)
    (recorded : Recorded cells writes) :
    attempt permits cells writes = (true, cells) := by
  induction writes with
  | nil => rfl
  | cons write writes ih =>
      have accepted : Accepts permits cells write :=
        ⟨permitted write (by simp), recorded.agrees (by simp)⟩
      rw [attempt, if_pos accepted, put_of_eq_some (recorded write (by simp))]
      exact ih (fun other member => permitted other (List.mem_cons_of_mem _ member))
        (fun other member => recorded other (List.mem_cons_of_mem _ member))

/-- A value found after an attempt was there before, or its key may be written. -/
theorem permits_of_attempt_snd {cells : Contents Key Value}
    {writes : List (Key × Value)} {key : Key} {value : Value}
    (present : (attempt permits cells writes).2 key = some value) :
    cells key = some value ∨ permits key := by
  induction writes generalizing cells with
  | nil => exact Or.inl present
  | cons write writes ih =>
      rw [attempt] at present
      split at present
      · rename_i accepted
        rcases ih present with stored | permitted
        · rcases (put_eq_some_iff accepted.2 key value).mp stored with before | written
          · exact Or.inl before
          · right
            rw [← written] at accepted
            exact accepted.1
        · exact Or.inr permitted
      · exact Or.inl present

/-- An attempt leaves every key alone that it has no write for. -/
theorem attempt_snd_of_forall_ne {cells : Contents Key Value}
    {writes : List (Key × Value)} {key : Key}
    (untouched : ∀ write ∈ writes, write.1 ≠ key) :
    (attempt permits cells writes).2 key = cells key := by
  induction writes generalizing cells with
  | nil => rfl
  | cons write writes ih =>
      have others : ∀ other ∈ writes, other.1 ≠ key :=
        fun other member => untouched other (List.mem_cons_of_mem _ member)
      rw [attempt]
      split
      · rw [ih others]
        exact put_of_ne (untouched write (by simp)).symm
      · rfl

theorem attempt_append (cells : Contents Key Value)
    (first second : List (Key × Value)) :
    attempt permits cells (first ++ second) =
      if (attempt permits cells first).1 then
        attempt permits (attempt permits cells first).2 second
      else attempt permits cells first := by
  induction first generalizing cells with
  | nil => simp [attempt]
  | cons write first ih =>
      simp only [List.cons_append, attempt]
      split
      · exact ih (put cells write)
      · simp

/-- The write at an index of the list cannot be performed: its key may not be
written, or the store before the attempt or an earlier write of the list has put
another value there. -/
def BlockedAt (cells : Contents Key Value) (writes : List (Key × Value))
    (index : Nat) : Prop :=
  ∃ write, writes[index]? = some write ∧
    (¬permits write.1 ∨
      (∃ held, cells write.1 = some held ∧ held ≠ write.2) ∨
      ∃ earlier, earlier ∈ writes.take index ∧
        earlier.1 = write.1 ∧ earlier.2 ≠ write.2)

/-- A write is not blocked when it is accepted after the consistent writes that
precede it. -/
theorem not_blockedAt_iff {cells : Contents Key Value}
    {writes : List (Key × Value)} {index : Nat} {write : Key × Value}
    (found : writes[index]? = some write)
    (consistent : Consistent cells (writes.take index)) :
    ¬BlockedAt permits cells writes index ↔
      Accepts permits (putAll cells (writes.take index)) write := by
  constructor
  · intro free
    constructor
    · by_contra refused
      exact free ⟨write, found, Or.inl refused⟩
    · intro held present
      by_contra different
      rcases (consistent.putAll_eq_some_iff _ _).mp present with before | written
      · exact free ⟨write, found, Or.inr (Or.inl ⟨held, before, different⟩)⟩
      · exact free ⟨write, found,
          Or.inr (Or.inr ⟨(write.1, held), written, rfl, different⟩)⟩
  · rintro ⟨permitted, agrees⟩ ⟨other, otherFound, blocked⟩
    obtain rfl : write = other := Option.some.inj (found.symm.trans otherFound)
    rcases blocked with refused | ⟨held, present, different⟩ |
      ⟨earlier, member, sameKey, different⟩
    · exact refused permitted
    · exact different (agrees held
        ((consistent.putAll_eq_some_iff _ _).mpr (Or.inl present)))
    · refine different (agrees earlier.2
        ((consistent.putAll_eq_some_iff _ _).mpr (Or.inr ?_)))
      rw [← sameKey]
      exact member

/-- As long as no index is blocked, the writes before it are all accepted. -/
theorem attempt_take_of_not_blockedAt {cells : Contents Key Value}
    {writes : List (Key × Value)} {count : Nat}
    (free : ∀ index < count, ¬BlockedAt permits cells writes index) :
    (attempt permits cells (writes.take count)).1 = true := by
  induction count with
  | zero => simp [attempt]
  | succ count ih =>
      have before := ih fun index bound => free index (Nat.lt_succ_of_lt bound)
      have consistent := ((attempt_fst_iff permits _ _).mp before).2
      cases found : writes[count]? with
      | none =>
          have short : writes.length ≤ count := List.getElem?_eq_none_iff.mp found
          rw [List.take_of_length_le (Nat.le_succ_of_le short)]
          rwa [List.take_of_length_le short] at before
      | some write =>
          have accepted := (not_blockedAt_iff permits found consistent).mp
            (free count (Nat.lt_succ_self count))
          rw [List.take_add_one, found, Option.toList_some, attempt_append,
            if_pos before, attempt_snd_of_accepted permits before, attempt,
            if_pos accepted, attempt]

/-- The loop gets stuck exactly at the first blocked index, with the writes before
it performed. -/
theorem attempt_of_first_blockedAt {cells : Contents Key Value}
    {writes : List (Key × Value)} {index : Nat}
    (blocked : BlockedAt permits cells writes index)
    (free : ∀ earlier < index, ¬BlockedAt permits cells writes earlier) :
    Consistent cells (writes.take index) ∧
      attempt permits cells writes = (false, putAll cells (writes.take index)) := by
  have before := attempt_take_of_not_blockedAt permits free
  have consistent := ((attempt_fst_iff permits _ _).mp before).2
  refine ⟨consistent, ?_⟩
  obtain ⟨write, found, -⟩ := id blocked
  have refused : ¬Accepts permits (putAll cells (writes.take index)) write := by
    rw [← not_blockedAt_iff permits found consistent]
    exact fun notBlocked => notBlocked blocked
  obtain ⟨bound, written⟩ := List.getElem?_eq_some_iff.mp found
  have split : writes = writes.take index ++ write :: writes.drop (index + 1) := by
    rw [← written, ← List.drop_eq_getElem_cons bound, List.take_append_drop]
  rw [split, attempt_append, if_pos before, attempt, ← split]
  rw [attempt_snd_of_accepted permits before, if_neg refused]

/-- The loop accepts the whole list exactly when no index is blocked. -/
theorem attempt_fst_iff_not_blockedAt (cells : Contents Key Value)
    (writes : List (Key × Value)) :
    (attempt permits cells writes).1 = true ↔
      ∀ index, ¬BlockedAt permits cells writes index := by
  constructor
  · intro accepted index
    have whole := (attempt_fst_iff permits _ _).mp accepted
    cases found : writes[index]? with
    | none =>
        rintro ⟨write, present, -⟩
        rw [found] at present
        cases present
    | some write =>
        have consistent := whole.2.of_subset (List.take_subset index writes)
        rw [not_blockedAt_iff permits found consistent]
        refine ⟨whole.1 write (List.mem_of_getElem? found), ?_⟩
        intro held present
        rcases (consistent.putAll_eq_some_iff _ _).mp present with before | written
        · exact whole.2.agrees write (List.mem_of_getElem? found) held before
        · exact whole.2.coherent _ (List.take_subset index writes written) write
            (List.mem_of_getElem? found) rfl
  · intro free
    have accepted := attempt_take_of_not_blockedAt permits
      fun index (_ : index < writes.length) => free index
    rwa [List.take_length] at accepted

/-! ## Loops over a store that may refuse new cells -/

/-- Writes performed from left to right until one is refused, with the Boolean that
tells whether all of them were accepted.  If `mayRefuse`, the store may also refuse a
write that it could accept, though only one to an empty cell. -/
inductive Attempted (mayRefuse : Prop) :
    Contents Key Value → List (Key × Value) → Bool → Contents Key Value → Prop
  | done (cells : Contents Key Value) : Attempted mayRefuse cells [] true cells
  | accept {cells after : Contents Key Value} {write : Key × Value}
      {writes : List (Key × Value)} {verdict : Bool}
      (accepted : Accepts permits cells write)
      (later : Attempted mayRefuse (put cells write) writes verdict after) :
      Attempted mayRefuse cells (write :: writes) verdict after
  | refuse {cells : Contents Key Value} {write : Key × Value}
      {writes : List (Key × Value)}
      (refused : Accepts permits cells write → mayRefuse ∧ cells write.1 = none) :
      Attempted mayRefuse cells (write :: writes) false cells

/-- The loop that refuses only what it must is a possible one. -/
theorem attempted_attempt (mayRefuse : Prop) (cells : Contents Key Value)
    (writes : List (Key × Value)) :
    Attempted permits mayRefuse cells writes (attempt permits cells writes).1
      (attempt permits cells writes).2 := by
  induction writes generalizing cells with
  | nil => exact .done cells
  | cons write writes ih =>
      rw [attempt]
      split
      · rename_i accepted
        exact .accept accepted (ih (put cells write))
      · rename_i refused
        exact .refuse fun accepted => absurd accepted refused

/-- It is the only possible one when the store refuses nothing without need. -/
theorem Attempted.eq_attempt {mayRefuse : Prop} (reliable : ¬mayRefuse)
    {cells after : Contents Key Value} {writes : List (Key × Value)} {verdict : Bool}
    (attempted : Attempted permits mayRefuse cells writes verdict after) :
    attempt permits cells writes = (verdict, after) := by
  induction attempted with
  | done => rfl
  | accept accepted later ih => rw [attempt, if_pos accepted, ih]
  | refuse refused => rw [attempt, if_neg fun accepted => reliable (refused accepted).1]

end Attempt

end Writes

end WriteOnce
