import Mathlib.Data.List.Induction
import Mathlib.Logic.Function.Basic

/-!
# Runs of a deterministic machine

A machine is a step function from a state and an operation to the next state.  A
run folds it over a list of operations, and its log collects what the operations
emit on the way.  The induction principles here are the ones later modules use for
invariants over whole runs.  Later sections compare the runs of two machines on the same
operations, and interleave the runs of several copies of one machine.
-/

namespace Machine

variable {State Op Event : Type*}

/-- The state after performing the operations in order. -/
def run (step : State → Op → State) (start : State) (ops : List Op) : State :=
  ops.foldl step start

/-- What the operations of a run emit, in order.  Each operation sees the state it
is performed in. -/
def log (step : State → Op → State) (emit : State → Op → List Event) :
    State → List Op → List Event
  | _, [] => []
  | state, op :: ops => emit state op ++ log step emit (step state op) ops

section

variable (step : State → Op → State) (emit : State → Op → List Event)

@[simp] theorem run_nil (start : State) : run step start [] = start := rfl

@[simp] theorem run_cons (start : State) (op : Op) (ops : List Op) :
    run step start (op :: ops) = run step (step start op) ops := rfl

theorem run_append (start : State) (first second : List Op) :
    run step start (first ++ second) = run step (run step start first) second :=
  List.foldl_append

@[simp] theorem run_concat (start : State) (ops : List Op) (op : Op) :
    run step start (ops ++ [op]) = step (run step start ops) op := by
  rw [run_append, run_cons, run_nil]

@[simp] theorem log_nil (start : State) : log step emit start [] = [] := rfl

@[simp] theorem log_cons (start : State) (op : Op) (ops : List Op) :
    log step emit start (op :: ops) =
      emit start op ++ log step emit (step start op) ops := rfl

theorem log_append (start : State) (first second : List Op) :
    log step emit start (first ++ second) =
      log step emit start first ++ log step emit (run step start first) second := by
  induction first generalizing start with
  | nil => rfl
  | cons op first ih =>
      rw [List.cons_append, log_cons, log_cons, run_cons, ih, List.append_assoc]

@[simp] theorem log_concat (start : State) (ops : List Op) (op : Op) :
    log step emit start (ops ++ [op]) =
      log step emit start ops ++ emit (run step start ops) op := by
  rw [log_append, log_cons, log_nil, List.append_nil]

/-- Induction on a run, one operation at a time, with the operations performed so
far available to the invariant. -/
theorem run_induction (start : State) (invariant : List Op → State → Prop)
    (initially : invariant [] start)
    (preserved : ∀ ops op, invariant ops (run step start ops) →
      invariant (ops ++ [op]) (step (run step start ops) op))
    (ops : List Op) : invariant ops (run step start ops) := by
  induction ops using List.reverseRecOn with
  | nil => exact initially
  | append_singleton ops op ih =>
      rw [run_concat]
      exact preserved ops op ih

/-- A preorder that every step respects relates the first and last state of a
run. -/
theorem run_related (related : State → State → Prop)
    (reflexive : ∀ state, related state state)
    (transitive : ∀ first middle last,
      related first middle → related middle last → related first last)
    (each : ∀ state op, related state (step state op))
    (start : State) (ops : List Op) : related start (run step start ops) := by
  induction ops generalizing start with
  | nil => exact reflexive start
  | cons op ops ih =>
      exact transitive start (step start op) _ (each start op) (ih (step start op))

end

/-- A machine whose steps run another machine on a part of its state: its runs do, too,
on the operations issued along the way. -/
theorem project_run {Inner InnerOp : Type*} (step : State → Op → State)
    (innerStep : Inner → InnerOp → Inner) (project : State → Inner)
    (issue : State → Op → List InnerOp)
    (each : ∀ state op,
      project (step state op) = run innerStep (project state) (issue state op))
    (start : State) (ops : List Op) :
    project (run step start ops) =
      run innerStep (project start) (log step issue start ops) := by
  induction ops generalizing start with
  | nil => rfl
  | cons op ops ih => rw [run_cons, ih, each, log_cons, run_append]

/-! ## Properties of every operation of a run -/

/-- Each operation of a run is good in the state that it is performed in. -/
def Always (step : State → Op → State) (good : State → Op → Prop) :
    State → List Op → Prop
  | _, [] => True
  | state, op :: ops => good state op ∧ Always step good (step state op) ops

instance decidableAlways (step : State → Op → State) (good : State → Op → Prop)
    [∀ state op, Decidable (good state op)] :
    ∀ state ops, Decidable (Always step good state ops)
  | _, [] => isTrue trivial
  | state, op :: ops =>
      have := decidableAlways step good (step state op) ops
      inferInstanceAs (Decidable (good state op ∧ Always step good (step state op) ops))

section

variable (step : State → Op → State) (good : State → Op → Prop)

@[simp] theorem always_nil (start : State) : Always step good start [] := trivial

@[simp] theorem always_cons (start : State) (op : Op) (ops : List Op) :
    Always step good start (op :: ops) ↔
      good start op ∧ Always step good (step start op) ops := Iff.rfl

theorem always_append (start : State) (first second : List Op) :
    Always step good start (first ++ second) ↔
      Always step good start first ∧ Always step good (run step start first) second := by
  induction first generalizing start with
  | nil => simp
  | cons op first ih => simp [ih, and_assoc]

@[simp] theorem always_concat (start : State) (ops : List Op) (op : Op) :
    Always step good start (ops ++ [op]) ↔
      Always step good start ops ∧ good (run step start ops) op := by
  simp [always_append]

end

/-- Two machines on the same operations.  As long as the operations are good, the
states stay related, and an operation is good for both machines or for neither.  The
relation and the admissible sequences of operations may depend on the operations
performed so far. -/
theorem always_iff_of_related {Ghost : Type*} (step : State → Op → State)
    (ghostStep : Ghost → Op → Ghost) (good : State → Op → Prop)
    (ghostGood : Ghost → Op → Prop) (start : State) (ghostStart : Ghost)
    (admissible : List Op → Prop) (related : List Op → State → Ghost → Prop)
    (initially : related [] start ghostStart)
    (prefixes : ∀ ops op, admissible (ops ++ [op]) → admissible ops)
    (each : ∀ ops op state ghost, admissible (ops ++ [op]) → related ops state ghost →
      (good state op ↔ ghostGood ghost op) ∧
      (ghostGood ghost op →
        related (ops ++ [op]) (step state op) (ghostStep ghost op)))
    {ops : List Op} (admitted : admissible ops) :
    (Always step good start ops ↔ Always ghostStep ghostGood ghostStart ops) ∧
    (Always ghostStep ghostGood ghostStart ops →
      related ops (run step start ops) (run ghostStep ghostStart ops)) := by
  induction ops using List.reverseRecOn with
  | nil => exact ⟨Iff.rfl, fun _ => initially⟩
  | append_singleton ops op ih =>
      obtain ⟨agree, relate⟩ := ih (prefixes ops op admitted)
      rw [always_concat, always_concat, run_concat, run_concat, agree]
      constructor
      · apply and_congr_right
        intro earlier
        exact (each ops op _ _ admitted (relate earlier)).1
      · rintro ⟨earlier, now⟩
        exact (each ops op _ _ admitted (relate earlier)).2 now

/-! ## Several copies of a machine -/

section Families

variable {Index : Type*} [DecidableEq Index]

/-- One copy performs an operation, and the others wait. -/
def memberStep (step : State → Op → State) (family : Index → State) (op : Index × Op) :
    Index → State :=
  Function.update family op.1 (step (family op.1) op.2)

/-- What a copy emits is marked with its index. -/
def memberEmit (emit : State → Op → List Event) (family : Index → State)
    (op : Index × Op) : List (Index × Event) :=
  (emit (family op.1) op.2).map fun event => (op.1, event)

/-- The items with one index, in order. -/
def ofMember {Item : Type*} (index : Index) (items : List (Index × Item)) : List Item :=
  items.filterMap fun item => if item.1 = index then some item.2 else none

section

variable {Item : Type*}

@[simp] theorem ofMember_nil (index : Index) :
    ofMember index ([] : List (Index × Item)) = [] := rfl

@[simp] theorem ofMember_cons_self (index : Index) (item : Item)
    (items : List (Index × Item)) :
    ofMember index ((index, item) :: items) = item :: ofMember index items := by
  simp [ofMember]

theorem ofMember_cons_of_ne {index other : Index} (different : other ≠ index) (item : Item)
    (items : List (Index × Item)) :
    ofMember index ((other, item) :: items) = ofMember index items := by
  simp [ofMember, different]

theorem ofMember_append (index : Index) (first second : List (Index × Item)) :
    ofMember index (first ++ second) = ofMember index first ++ ofMember index second :=
  List.filterMap_append

theorem ofMember_map_self (index : Index) (items : List Item) :
    ofMember index (items.map fun item => (index, item)) = items := by
  induction items with
  | nil => rfl
  | cons item items ih => rw [List.map_cons, ofMember_cons_self, ih]

theorem ofMember_map_of_ne {index other : Index} (different : other ≠ index)
    (items : List Item) : ofMember index (items.map fun item => (other, item)) = [] := by
  induction items with
  | nil => rfl
  | cons item items ih => rw [List.map_cons, ofMember_cons_of_ne different, ih]

end

variable (step : State → Op → State) (emit : State → Op → List Event)
  (good : State → Op → Prop)

/-- In any interleaving, each copy runs as it would on its own operations alone. -/
theorem run_memberStep (family : Index → State) (ops : List (Index × Op)) (index : Index) :
    run (memberStep step) family ops index =
      run step (family index) (ofMember index ops) := by
  induction ops generalizing family with
  | nil => rfl
  | cons op ops ih =>
      obtain ⟨other, op⟩ := op
      rw [run_cons, ih, memberStep]
      by_cases same : other = index
      · subst same
        rw [Function.update_self, ofMember_cons_self, run_cons]
      · rw [Function.update_of_ne (Ne.symm same), ofMember_cons_of_ne same]

/-- In any interleaving, each copy emits what it would on its own operations alone. -/
theorem log_memberStep (family : Index → State) (ops : List (Index × Op)) (index : Index) :
    ofMember index (log (memberStep step) (memberEmit emit) family ops) =
      log step emit (family index) (ofMember index ops) := by
  induction ops generalizing family with
  | nil => rfl
  | cons op ops ih =>
      obtain ⟨other, op⟩ := op
      rw [log_cons, ofMember_append, ih, memberStep, memberEmit]
      by_cases same : other = index
      · subst same
        rw [Function.update_self, ofMember_map_self, ofMember_cons_self, log_cons]
      · rw [Function.update_of_ne (Ne.symm same), ofMember_map_of_ne same,
          ofMember_cons_of_ne same, List.nil_append]

/-- The operations of an interleaving are good exactly when those of each copy are. -/
theorem always_memberStep (family : Index → State) (ops : List (Index × Op)) :
    Always (memberStep step) (fun family op => good (family op.1) op.2) family ops ↔
      ∀ index, Always step good (family index) (ofMember index ops) := by
  induction ops generalizing family with
  | nil => simp
  | cons op ops ih =>
      obtain ⟨first, op⟩ := op
      rw [always_cons, ih]
      have elsewhere : ∀ index, first ≠ index →
          (Always step good (memberStep step family (first, op) index) (ofMember index ops) ↔
            Always step good (family index) (ofMember index ((first, op) :: ops))) := by
        intro index different
        rw [memberStep, Function.update_of_ne (Ne.symm different),
          ofMember_cons_of_ne different]
      have here : Always step good (family first) (ofMember first ((first, op) :: ops)) ↔
          good (family first) op ∧
            Always step good (memberStep step family (first, op) first)
              (ofMember first ops) := by
        rw [ofMember_cons_self, always_cons, memberStep, Function.update_self]
      constructor
      · rintro ⟨now, later⟩ index
        by_cases same : first = index
        · subst same
          exact here.mpr ⟨now, later first⟩
        · exact (elsewhere index same).mp (later index)
      · intro each
        refine ⟨(here.mp (each first)).1, fun index => ?_⟩
        by_cases same : first = index
        · subst same
          exact (here.mp (each first)).2
        · exact (elsewhere index same).mpr (each index)

end Families

end Machine
