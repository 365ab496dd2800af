import Mathlib.Data.Set.Basic
import CairoVM.Library.Triple

/-!
# Heap programs that compute a value

A program on a heap often follows a computation on values: it throws when the computation
fails, and otherwise builds a representation of its result.  What only the heap decides,
such as whether an allocation succeeds, is a question that the computation asks.
`Computes` says that the program ends as the computation does for some possible answers,
and its rules follow the structure of the computation.  Two computations in sequence ask
different questions, so their answers never contradict each other.
-/

namespace HeapLogic

variable {Content Error Failure Result Next Value Later Question Answer Outcome : Type}

/-! ## Questions and answers -/

/-- Possible answers to some of the questions settle the outcome. -/
def Settles (possible : Question → Answer → Prop) (asked : Set Question)
    (value : (Question → Answer) → Outcome) (outcome : Outcome) : Prop :=
  ∃ given : Question → Option Answer,
    (∀ question answer, given question = some answer →
      question ∈ asked ∧ possible question answer) ∧
    ∀ answers, (∀ question answer, given question = some answer →
      answers question = answer) → value answers = outcome

namespace Settles

variable {possible : Question → Answer → Prop} {asked asked' : Set Question}
  {value : (Question → Answer) → Outcome} {outcome : Outcome}

theorem const (possible : Question → Answer → Prop) (asked : Set Question)
    (outcome : Outcome) : Settles possible asked (fun _ => outcome) outcome :=
  ⟨fun _ => none, nofun, fun _ _ => rfl⟩

theorem mono (settles : Settles possible asked value outcome) (more : asked ⊆ asked') :
    Settles possible asked' value outcome := by
  obtain ⟨given, allowed, settled⟩ := settles
  exact ⟨given, fun question answer found =>
    (allowed question answer found).imp_left fun inside => more inside, settled⟩

theorem imp {Outcome' : Type} {value' : (Question → Answer) → Outcome'}
    {outcome' : Outcome'} (settles : Settles possible asked value outcome)
    (follows : ∀ answers, value answers = outcome → value' answers = outcome') :
    Settles possible asked value' outcome' := by
  obtain ⟨given, allowed, settled⟩ := settles
  exact ⟨given, allowed, fun answers agree => follows answers (settled answers agree)⟩

/-- Answers to different questions go together. -/
theorem both {Outcome' Final : Type} {value' : (Question → Answer) → Outcome'}
    {outcome' : Outcome'} {whole : (Question → Answer) → Final} {final : Final}
    (first : Settles possible asked value outcome)
    (second : Settles possible asked' value' outcome')
    (apart : ∀ question ∈ asked, question ∉ asked')
    (follows : ∀ answers, value answers = outcome → value' answers = outcome' →
      whole answers = final) : Settles possible (asked ∪ asked') whole final := by
  obtain ⟨given, allowed, settled⟩ := first
  obtain ⟨given', allowed', settled'⟩ := second
  refine ⟨fun question => (given question).or (given' question), ?_, ?_⟩
  · intro question answer found
    rcases Option.or_eq_some_iff.mp found with found | ⟨-, found⟩
    · exact (allowed question answer found).imp_left .inl
    · exact (allowed' question answer found).imp_left .inr
  · intro answers agree
    have agreeFirst := settled answers fun question answer found =>
      agree question answer (Option.or_eq_some_iff.mpr (.inl found))
    have agreeSecond := settled' answers fun question answer found => by
      refine agree question answer (Option.or_eq_some_iff.mpr (.inr ⟨?_, found⟩))
      rw [Option.eq_none_iff_forall_ne_some]
      intro other foundFirst
      exact apart question (allowed question other foundFirst).1
        (allowed' question answer found).1
    exact follows answers agreeFirst agreeSecond

/-- A question, and what the answer leads to. -/
theorem ask [DecidableEq Question] {branch : Answer → (Question → Answer) → Outcome}
    {question : Question} {answer : Answer} (isPossible : possible question answer)
    (fresh : question ∉ asked)
    (settles : Settles possible asked (branch answer) outcome) :
    Settles possible (insert question asked)
      (fun answers => branch (answers question) answers) outcome := by
  have asking : Settles possible {question} (fun answers => answers question) answer := by
    refine ⟨fun other => if other = question then some answer else none, ?_, ?_⟩
    · intro other given found
      obtain ⟨rfl, same⟩ := Option.ite_none_right_eq_some.mp found
      obtain rfl := Option.some.inj same
      exact ⟨rfl, isPossible⟩
    · exact fun answers agree => agree question answer (if_pos rfl)
  refine asking.both settles ?_ fun answers same later => ?_
  · intro other isQuestion
    rwa [Set.mem_singleton_iff.mp isQuestion]
  · rw [same, later]

/-- The given answers are part of answers to all questions. -/
theorem exists_answers (settles : Settles possible asked value outcome)
    (answerable : ∀ question, ∃ answer, possible question answer) :
    ∃ answers, (∀ question, possible question (answers question)) ∧
      value answers = outcome := by
  obtain ⟨given, allowed, settled⟩ := settles
  have total : ∀ question, ∃ answer, possible question answer ∧
      ∀ other, given question = some other → answer = other := by
    intro question
    cases found : given question with
    | none =>
        obtain ⟨answer, isPossible⟩ := answerable question
        exact ⟨answer, isPossible, nofun⟩
    | some answer =>
        exact ⟨answer, (allowed question answer found).2, fun _ => Option.some.inj⟩
  choose answers isPossible agree using total
  exact ⟨answers, isPossible, settled answers agree⟩

end Settles

/-! ## Programs and computations -/

/-- The program is stopped by an error, and it is settled that the computation fails with
that error. -/
def Throws (wrap : Failure → Error) (possible : Question → Answer → Prop)
    (asked : Set Question) (value : (Question → Answer) → Except Failure Value)
    (reason : Stop Error) : Prop :=
  ∃ failure, reason = .thrown (wrap failure) ∧ Settles possible asked value (.error failure)

/-- What a program leaves that represents the result of a computation. -/
def represented (possible : Question → Answer → Prop) (asked : Set Question)
    (value : (Question → Answer) → Except Failure Value)
    (represents : Result → Value → Assertion Content) (result : Result) :
    Assertion Content :=
  ⨆ view, Assertion.fact (Settles possible asked value (.ok view)) * represents result view

/-- The program throws the failure of the computation or represents its result. -/
def Computes (wrap : Failure → Error) (possible : Question → Answer → Prop)
    (asked : Set Question) (value : (Question → Answer) → Except Failure Value)
    (pre : Assertion Content) (program : Program Content Error Result)
    (represents : Result → Value → Assertion Content) : Prop :=
  Triple (Throws wrap possible asked value) pre program
    (represented possible asked value represents)

/-- Throw the failure of a computation. -/
def throwing (wrap : Failure → Error) : Except Failure Value → Program Content Error Value
  | .ok value => pure value
  | .error failure => stop (.thrown (wrap failure))

namespace Computes

variable {wrap : Failure → Error} {possible : Question → Answer → Prop}
  {asked asked' : Set Question} {value : (Question → Answer) → Except Failure Value}
  {pre : Assertion Content} {program : Program Content Error Result}
  {represents : Result → Value → Assertion Content}

theorem pure {view : Value} (result : Result) (entails : pre ≤ represents result view) :
    Computes wrap possible asked (fun _ => .ok view : _ → Except Failure Value) pre
      (pure result : Program Content Error Result) represents :=
  Triple.pure result (le_iSup_of_le view
    (entails.trans (Assertion.le_fact_mul (Settles.const _ _ _) _)))

theorem consequence {pre' : Assertion Content}
    {represents' : Result → Value → Assertion Content}
    (computes : Computes wrap possible asked value pre program represents)
    (weaken : pre' ≤ pre)
    (strengthen : ∀ result view, represents result view ≤ represents' result view) :
    Computes wrap possible asked value pre' program represents' :=
  Triple.consequence computes weaken fun result =>
    iSup_mono fun view => Assertion.mul_apply_mono le_rfl (strengthen result view)

theorem frame (computes : Computes wrap possible asked value pre program represents)
    (rest : Assertion Content) :
    Computes wrap possible asked value (pre * rest) program
      fun result view => represents result view * rest := by
  refine (Triple.frame computes rest).consequence le_rfl fun result => ?_
  rw [represented, Quantale.iSup_mul_distrib]
  exact iSup_mono fun view => (mul_assoc _ _ _).le

/-- The computation may be replaced by one that is settled whenever it is. -/
theorem congr {Failure' : Type} {wrap' : Failure' → Error} (translate : Failure → Failure')
    (sameError : ∀ failure, wrap' (translate failure) = wrap failure)
    {value' : (Question → Answer) → Except Failure' Value}
    (failed : ∀ failure, Settles possible asked value (.error failure) →
      Settles possible asked' value' (.error (translate failure)))
    (returned : ∀ view, Settles possible asked value (.ok view) →
      Settles possible asked' value' (.ok view))
    (computes : Computes wrap possible asked value pre program represents) :
    Computes wrap' possible asked' value' pre program represents := by
  refine (Triple.weaken_stop computes ?_).consequence le_rfl fun result => ?_
  · rintro reason ⟨failure, rfl, settles⟩
    exact ⟨translate failure, by rw [sameError], failed failure settles⟩
  · refine iSup_mono fun view => Assertion.mul_apply_mono ?_ le_rfl
    rintro part ⟨settles, nothing⟩
    exact ⟨returned view settles, nothing⟩

theorem mono (computes : Computes wrap possible asked value pre program represents)
    (more : asked ⊆ asked') : Computes wrap possible asked' value pre program represents :=
  congr id (fun _ => rfl) (fun _ settles => settles.mono more)
    (fun _ settles => settles.mono more) computes

/-- One computation after another, which asks other questions. -/
theorem bind {middle : Result → Value → Assertion Content}
    {next : Result → Program Content Error Next}
    {rest : Value → (Question → Answer) → Except Failure Later}
    {represents : Next → Later → Assertion Content}
    (first : Computes wrap possible asked value pre program middle)
    (second : ∀ result view,
      Computes wrap possible asked' (rest view) (middle result view) (next result)
        represents)
    (apart : ∀ question ∈ asked, question ∉ asked') :
    Computes wrap possible (asked ∪ asked')
      (fun answers => value answers >>= fun view => rest view answers) pre
      (program >>= next) represents := by
  refine Triple.bind (Triple.weaken_stop first ?_) fun result => Triple.iSup fun view =>
    Triple.fact fun settles => ?_
  · rintro reason ⟨failure, rfl, settles⟩
    refine ⟨failure, rfl, (settles.mono Set.subset_union_left).imp fun answers failed => ?_⟩
    rw [failed]
    rfl
  · refine congr id (fun _ => rfl) ?_ ?_ (second result view)
    · intro failure later
      refine settles.both later apart fun answers returned failed => ?_
      rw [returned]
      exact failed
    · intro final later
      refine settles.both later apart fun answers returned returnedLater => ?_
      rw [returned]
      exact returnedLater

/-- A last step that only the computation on values takes. -/
theorem map {transform : Value → Later} {represents' : Result → Later → Assertion Content}
    (computes : Computes wrap possible asked value pre program represents)
    (entails : ∀ result view,
      represents result view ≤ represents' result (transform view)) :
    Computes wrap possible asked
      (fun answers => value answers >>= fun view => Except.ok (transform view)) pre program
      represents' := by
  rw [← bind_pure program, ← Set.union_empty asked]
  exact bind computes (fun result view => pure result (entails result view)) fun _ _ => id

/-- The failures of a computation may be those of a larger one. -/
theorem mapError (computes : Computes wrap possible asked value pre program represents) :
    Computes id possible asked (fun answers => (value answers).mapError wrap) pre program
      represents := by
  refine congr wrap (fun _ => rfl) ?_ ?_ computes
  · intro failure settles
    refine settles.imp fun answers failed => ?_
    rw [failed]
    rfl
  · intro view settles
    refine settles.imp fun answers returned => ?_
    rw [returned]
    rfl

/-- A step that only the computation on values can fail in. -/
theorem throwing {step : Except Failure Value} {next : Value → Program Content Error Next}
    {rest : Value → (Question → Answer) → Except Failure Later}
    {represents : Next → Later → Assertion Content}
    (goOn : ∀ view, step = .ok view →
      Computes wrap possible asked (rest view) pre (next view) represents) :
    Computes wrap possible asked (fun answers => step >>= fun view => rest view answers) pre
      (HeapLogic.throwing wrap step >>= next) represents := by
  cases step with
  | ok view => exact goOn view rfl
  | error failure => exact fun _ _ _ => ⟨failure, rfl, Settles.const _ _ _⟩

/-- A question that the heap answers. -/
theorem ask [DecidableEq Question]
    (branch : Answer → (Question → Answer) → Except Failure Value) {question : Question}
    (fresh : question ∉ asked) {answer : Answer}
    (isPossible : possible question answer)
    (computes : Computes wrap possible asked (branch answer) pre program represents) :
    Computes wrap possible (insert question asked)
      (fun answers => branch (answers question) answers) pre program represents :=
  congr id (fun _ => rfl) (fun _ settles => settles.ask isPossible fresh)
    (fun _ settles => settles.ask isPossible fresh) computes

end Computes
end HeapLogic
