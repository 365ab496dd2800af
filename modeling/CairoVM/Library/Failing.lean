import Mathlib.Logic.Basic

/-!
# Computations that may fail

How a sequence of computations ends: with the last result when none of them fails, and
with the first error otherwise.
-/

namespace Failing

variable {Error Value Later : Type} {first : Except Error Value}
  {next : Value → Except Error Later}

theorem bind_eq_ok_iff {result : Later} :
    (first >>= next) = .ok result ↔ ∃ value, first = .ok value ∧ next value = .ok result := by
  cases first with
  | ok value => exact ⟨fun ran => ⟨value, rfl, ran⟩, fun ⟨_, rfl, ran⟩ => ran⟩
  | error error => exact ⟨nofun, nofun⟩

theorem bind_eq_error_iff {error : Error} :
    (first >>= next) = .error error ↔
      first = .error error ∨ ∃ value, first = .ok value ∧ next value = .error error := by
  cases first with
  | ok value => exact ⟨fun ran => .inr ⟨value, rfl, ran⟩, fun | .inr ⟨_, rfl, ran⟩ => ran⟩
  | error other =>
      constructor
      · intro failed
        exact .inl (congrArg Except.error (Except.error.inj failed))
      · rintro (failed | ⟨_, ⟨⟩, -⟩)
        exact congrArg Except.error (Except.error.inj failed)

/-- A computation succeeds exactly when it has none of the problems that make it fail. -/
theorem exists_ok_iff {Problem : Error → Prop}
    (fails : ∀ error, first = .error error ↔ Problem error) :
    (∃ value, first = .ok value) ↔ ∀ error, ¬Problem error := by
  simp only [← fails]
  cases first <;> simp

/-! ## Lists of computations -/

section

variable {Item Image : Type*} {image : Item → Option Image} {items : List Item}

theorem mapM_cons_eq_some_iff {item : Item} {images : List Image} :
    (item :: items).mapM image = some images ↔
      ∃ first, image item = some first ∧
        ∃ others, items.mapM image = some others ∧ first :: others = images := by
  simp only [List.mapM_cons, Option.pure_def, Option.bind_eq_bind,
    Option.bind_eq_some_iff, Option.some.injEq]

/-- A partial map over a list succeeds with the results of its items. -/
theorem mapM_eq_some_iff {images : List Image} :
    items.mapM image = some images ↔ items.map image = images.map some := by
  induction items generalizing images with
  | nil => cases images <;> simp
  | cons item rest ih =>
      rw [mapM_cons_eq_some_iff, List.map_cons]
      constructor
      · rintro ⟨first, now, others, later, rfl⟩
        rw [List.map_cons, now, ih.mp later]
      · intro agree
        cases images with
        | nil => cases agree
        | cons first others =>
            rw [List.map_cons, List.cons.injEq] at agree
            exact ⟨first, agree.1, others, ih.mpr agree.2, rfl⟩

/-- Mapping the result of every step is mapping the results of the whole. -/
theorem mapM_map_result {Result : Type*} (image : Item → Option Image)
    (result : Image → Result) (items : List Item) :
    (items.mapM fun item => (image item).map result) =
      (items.mapM image).map (List.map result) := by
  induction items with
  | nil => rfl
  | cons item rest ih =>
      rw [List.mapM_cons, List.mapM_cons, ih]
      cases image item with
      | none => rfl
      | some first => cases rest.mapM image <;> rfl

end

end Failing
