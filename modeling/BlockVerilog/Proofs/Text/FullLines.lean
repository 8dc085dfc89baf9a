import BlockVerilog.Proofs.Text.Layout

/-!
The lines of a text that a newline ends.

Of texts put together at line ends they are those of each text, in order, and a prefix goes in front
of each of them. So a line of a statement can be followed through the bodies that it stands in.
-/

namespace BlockVerilog.Text

/-- The lines of a text that a newline ends. -/
def fullLines (text : List Char) : List (List Char) := (lines text).dropLast

theorem lines_ne_nil (text : List Char) : lines text ≠ [] := List.splitOn_ne_nil _ _

@[simp] theorem fullLines_nil : fullLines [] = [] := rfl

theorem fullLines_append_newline (first second : List Char) :
    fullLines (first ++ '\n' :: second) = lines first ++ fullLines second := by
  rw [fullLines, lines_append_newline, List.dropLast_append_of_ne_nil (lines_ne_nil _),
    fullLines]

@[simp] theorem fullLines_newline (text : List Char) : fullLines (text ++ ['\n']) = lines text := by
  rw [fullLines_append_newline, fullLines_nil, List.append_nil]

/-- Behind whole lines, full lines begin anew. -/
theorem fullLines_append {first : List Char} (ends : EndsLine first) (second : List Char) :
    fullLines (first ++ second) = fullLines first ++ fullLines second := by
  rcases ends with rfl | ⟨body, rfl⟩
  · rfl
  · rw [List.append_assoc, List.singleton_append, fullLines_append_newline, fullLines_newline]

theorem fullLines_flatMap {α : Type} {elements : List α} {text : α → List Char}
    (ends : ∀ a ∈ elements, EndsLine (text a)) :
    fullLines (elements.flatMap text) = elements.flatMap fun a => fullLines (text a) := by
  induction elements with
  | nil => rfl
  | cons a elements inductionHypothesis =>
      obtain ⟨first, others⟩ := List.forall_mem_cons.mp ends
      rw [List.flatMap_cons, List.flatMap_cons, fullLines_append first,
        inductionHypothesis others]

theorem fullLines_join {pieces : List String} (ends : ∀ piece ∈ pieces, EndsLine piece.toList) :
    fullLines (String.join pieces).toList = pieces.flatMap fun piece => fullLines piece.toList := by
  rw [← fullLines_flatMap ends, String.toList_join]

theorem endsLine_join {pieces : List String} (ends : ∀ piece ∈ pieces, EndsLine piece.toList) :
    EndsLine (String.join pieces).toList := by
  induction pieces with
  | nil => exact endsLine_nil
  | cons piece pieces inductionHypothesis =>
      obtain ⟨first, others⟩ := List.forall_mem_cons.mp ends
      rw [String.join_cons, String.toList_append]
      exact first.append (inductionHypothesis others)

theorem fullLines_sublist_lines (text : List Char) : (fullLines text).Sublist (lines text) :=
  List.dropLast_sublist _

theorem fullLines_prefixLines {lead text : List Char} (leadClean : '\n' ∉ lead)
    (ends : EndsLine text) :
    fullLines (prefixLines lead text) = (fullLines text).map (lead ++ ·) := by
  rcases ends with rfl | ⟨body, rfl⟩
  · rw [prefixLines_nil]
    rfl
  · have inner := lines_leadAll leadClean (List.not_mem_nil (a := '\n')) body
    rw [List.append_nil, List.nil_append] at inner
    have ended : withoutFinalNewline (body ++ ['\n']) = body ∧
        finalNewline (body ++ ['\n']) = ['\n'] := by
      simp [withoutFinalNewline, finalNewline]
    rw [prefixLines_of_ne_nil lead (by simp), ended.1, ended.2, fullLines_newline,
      fullLines_newline, inner]

/-- Wherever a text stands, these lines are among its full lines: whatever is put in front of it on
its first line, and whatever goes on behind it. -/
def Holds (held : List (List Char)) (text : String) : Prop :=
  ∀ (front rest : String) (later : List (List Char)),
    (∀ line : String, later.Sublist (fullLines (line ++ rest).toList)) →
      (held ++ later).Sublist (fullLines (front ++ text ++ rest).toList)

theorem holds_nil (text : String) : Holds [] text :=
  fun front _ _ follows => follows (front ++ text)

theorem Holds.append {held heldNext : List (List Char)} {first second : String}
    (holds : Holds held first) (next : Holds heldNext second) :
    Holds (held ++ heldNext) (first ++ second) := by
  intro front rest later follows
  have both := holds front (second ++ rest) (heldNext ++ later) fun line => by
    rw [← String.append_assoc]
    exact next line rest later follows
  have regroup : front ++ (first ++ second) ++ rest = front ++ first ++ (second ++ rest) := by
    simp only [String.append_assoc]
  rwa [regroup, List.append_assoc]

/-- A body between a head of whole lines and a closing holds its full lines. -/
theorem holds_body {head body : String} (ended : head.toList.getLast? = some '\n')
    (whole : IsBody body) (closing : String) :
    Holds (fullLines body.toList) (head ++ body ++ closing) := by
  intro front rest later follows
  obtain ⟨line, split⟩ := List.getLast?_eq_some_iff.mp (getLast?_toList_append ended front)
  have opened : EndsLine (front ++ head).toList := split ▸ endsLine_newline line
  have regroup : front ++ (head ++ body ++ closing) ++ rest =
      front ++ head ++ body ++ (closing ++ rest) := by simp only [String.append_assoc]
  rw [regroup, String.toList_append, String.toList_append,
    fullLines_append (opened.append whole.endsLine), fullLines_append opened, List.append_assoc]
  exact ((List.Sublist.refl _).append (follows closing)).trans (List.sublist_append_right _ _)

theorem Holds.sublist {held : List (List Char)} {text : String} (holds : Holds held text) :
    held.Sublist (fullLines text.toList) := by
  have alone := holds "" "" [] fun line => List.nil_sublist _
  rwa [List.append_nil, String.empty_append, String.append_empty] at alone

end BlockVerilog.Text
