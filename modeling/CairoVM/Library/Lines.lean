import Mathlib.Data.List.TakeWhile

/-!
# Texts made of lines

A line ends with its only newline.  So a text that is made of lines can be split into
them in one way only.
-/

namespace Lines

/-- A text that ends with its only newline. -/
def IsLine (text : List Char) : Prop := ∃ body, text = body ++ ['\n'] ∧ '\n' ∉ body

/-- The first line of a text is what comes before its first newline. -/
theorem takeWhile_line_append {body : List Char} (noNewline : '\n' ∉ body)
    (rest : List Char) :
    (body ++ '\n' :: rest).takeWhile (· ≠ '\n') = body ∧
      (body ++ '\n' :: rest).dropWhile (· ≠ '\n') = '\n' :: rest := by
  have inside : ∀ character ∈ body, decide (character ≠ '\n') = true := by
    intro character member
    rw [decide_eq_true_iff]
    rintro rfl
    exact noNewline member
  rw [List.takeWhile_append_of_pos inside, List.dropWhile_append_of_pos inside]
  simp

theorem flatten_injective {lines others : List (List Char)}
    (areLines : ∀ line ∈ lines, IsLine line) (areOthers : ∀ line ∈ others, IsLine line)
    (same : lines.flatten = others.flatten) : lines = others := by
  induction lines generalizing others with
  | nil =>
      cases others with
      | nil => rfl
      | cons other others =>
          obtain ⟨body, rfl, -⟩ := areOthers other List.mem_cons_self
          simp at same
  | cons line lines ih =>
      obtain ⟨body, rfl, noNewline⟩ := areLines line List.mem_cons_self
      cases others with
      | nil => simp at same
      | cons other others =>
          obtain ⟨otherBody, rfl, otherNoNewline⟩ := areOthers other List.mem_cons_self
          simp only [List.flatten_cons, List.append_assoc, List.singleton_append] at same
          have first := takeWhile_line_append noNewline lines.flatten
          have second := takeWhile_line_append otherNoNewline others.flatten
          rw [same] at first
          have sameBody : body = otherBody := first.1.symm.trans second.1
          have sameRest : lines.flatten = others.flatten :=
            (List.cons.inj (first.2.symm.trans second.2)).2
          rw [sameBody, ih (fun _ member => areLines _ (List.mem_cons_of_mem _ member))
            (fun _ member => areOthers _ (List.mem_cons_of_mem _ member)) sameRest]

/-- What is neither in the separator nor in the parts is not in the joined text. -/
theorem notMem_intercalate {separator : List Char} {parts : List (List Char)}
    {character : Char} (noSeparator : character ∉ separator)
    (noPart : ∀ part ∈ parts, character ∉ part) :
    character ∉ List.intercalate separator parts := by
  induction parts with
  | nil => simp [List.intercalate]
  | cons part parts ih =>
      have later := ih fun other member => noPart other (List.mem_cons_of_mem part member)
      cases parts with
      | nil => simpa [List.intercalate] using noPart part List.mem_cons_self
      | cons next parts =>
          have joined : List.intercalate separator (part :: next :: parts) =
              part ++ (separator ++ List.intercalate separator (next :: parts)) := rfl
          rw [joined, List.mem_append, List.mem_append]
          rintro (inPart | inSeparator | inRest)
          · exact noPart part List.mem_cons_self inPart
          · exact noSeparator inSeparator
          · exact later inRest

end Lines
