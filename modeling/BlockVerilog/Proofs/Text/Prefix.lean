import Mathlib.Data.List.Count
import BlockVerilog.Proofs.Text.Tidying

/-!
Prefixes of lines.

A text opens a line at its beginning and behind each newline but a final one, and the empty text
opens none. A prefix goes in front of each line that is opened and changes nothing else, so that
prefixes can be put together, and taken off again.
-/

namespace BlockVerilog.Text

/-- The lines that a text opens. -/
def openedLines (text : List Char) : List (List Char) :=
  if text = [] then [] else lines (withoutFinalNewline text)

/-- Take a prefix off every line that has it. -/
def removePrefix (lead text : List Char) : List Char :=
  unlines ((openedLines text).map fun line => (line.dropPrefix? lead).getD line) ++
    finalNewline text

/-- What prefixes of lines do to texts. -/
structure PrefixLaws (lead outer first second : List Char) : Prop where
  composes : prefixLines outer (prefixLines lead first) = prefixLines (outer ++ lead) first
  appends : EndsLine first →
    prefixLines lead (first ++ second) = prefixLines lead first ++ prefixLines lead second
  newlines : (prefixLines lead first).count '\n' = first.count '\n'
  marked : ∀ line ∈ openedLines (prefixLines lead first), lead <+: line
  removed : removePrefix lead (prefixLines lead first) = first

/-- A text is the lines that it opens, and perhaps a newline behind them. -/
theorem unlines_openedLines (text : List Char) :
    unlines (openedLines text) ++ finalNewline text = text := by
  unfold openedLines
  split
  next empty =>
    rw [empty]
    rfl
  next => rw [unlines_lines, withoutFinalNewline_append_finalNewline]

theorem eq_of_openedLines {first second : List Char}
    (sameLines : openedLines first = openedLines second)
    (sameEnd : finalNewline first = finalNewline second) : first = second := by
  rw [← unlines_openedLines first, sameLines, sameEnd, unlines_openedLines]

/-- A text is empty, ends with a newline, or ends with another character. -/
theorem ends_cases (text : List Char) :
    text = [] ∨ (∃ body, text = body ++ ['\n']) ∨ ∃ front c, c ≠ '\n' ∧ text = front ++ [c] := by
  rcases List.eq_nil_or_concat' text with empty | ⟨front, c, rfl⟩
  · exact .inl empty
  · by_cases newline : c = '\n'
    · exact .inr (.inl ⟨front, by rw [newline]⟩)
    · exact .inr (.inr ⟨front, c, newline, rfl⟩)

section

variable (body : List Char) {c : Char} (other : c ≠ '\n')

theorem openedLines_newline : openedLines (body ++ ['\n']) = lines body := by
  simp [openedLines, withoutFinalNewline]

theorem finalNewline_newline : finalNewline (body ++ ['\n']) = ['\n'] := by
  simp [finalNewline]

theorem prefixLines_newline (lead : List Char) :
    prefixLines lead (body ++ ['\n']) = lead ++ leadAll lead body ++ ['\n'] := by
  rw [prefixLines_of_ne_nil lead (by simp)]
  simp [withoutFinalNewline, finalNewline]

include other

theorem openedLines_concat : openedLines (body ++ [c]) = lines (body ++ [c]) := by
  simp [openedLines, withoutFinalNewline, other]

theorem finalNewline_concat : finalNewline (body ++ [c]) = [] := by
  simp [finalNewline, other]

theorem prefixLines_concat (lead : List Char) :
    prefixLines lead (body ++ [c]) = lead ++ leadAll lead body ++ [c] := by
  rw [prefixLines_of_ne_nil lead (by simp)]
  simp [withoutFinalNewline, finalNewline, leadAll, other]

end

section

variable {lead : List Char}

theorem finalNewline_prefixLines (lead text : List Char) :
    finalNewline (prefixLines lead text) = finalNewline text := by
  rcases ends_cases text with rfl | ⟨body, rfl⟩ | ⟨front, c, other, rfl⟩
  · rw [prefixLines_nil]
  · rw [prefixLines_newline, finalNewline_newline, finalNewline_newline]
  · rw [prefixLines_concat front other, finalNewline_concat _ other, finalNewline_concat _ other]

/-- A prefix goes in front of each line that is opened. -/
theorem openedLines_prefixLines (clean : '\n' ∉ lead) (text : List Char) :
    openedLines (prefixLines lead text) = (openedLines text).map (lead ++ ·) := by
  have led : ∀ body, lines (lead ++ leadAll lead body) = (lines body).map (lead ++ ·) := by
    intro body
    have inner := lines_leadAll clean (List.not_mem_nil (a := '\n')) body
    rwa [List.append_nil, List.nil_append] at inner
  rcases ends_cases text with rfl | ⟨body, rfl⟩ | ⟨front, c, other, rfl⟩
  · rw [prefixLines_nil]
    rfl
  · rw [prefixLines_newline, openedLines_newline, openedLines_newline, led]
  · have longer : leadAll lead front ++ [c] = leadAll lead (front ++ [c]) := by
      simp [leadAll, other]
    rw [prefixLines_concat front other, openedLines_concat _ other, openedLines_concat _ other,
      List.append_assoc, longer, led]

theorem prefixLines_prefixLines (clean : '\n' ∉ lead) {outer : List Char}
    (outerClean : '\n' ∉ outer) (text : List Char) :
    prefixLines outer (prefixLines lead text) = prefixLines (outer ++ lead) text := by
  have bothClean : '\n' ∉ outer ++ lead := by simp [clean, outerClean]
  apply eq_of_openedLines
  · rw [openedLines_prefixLines outerClean, openedLines_prefixLines clean,
      openedLines_prefixLines bothClean, List.map_map]
    simp only [Function.comp_def, List.append_assoc]
  · simp only [finalNewline_prefixLines]

/-- Nothing in front of its lines leaves a text as it is. -/
theorem prefixLines_empty (text : List Char) : prefixLines [] text = text := by
  apply eq_of_openedLines
  · rw [openedLines_prefixLines List.not_mem_nil]
    simp
  · exact finalNewline_prefixLines [] text

/-- Behind whole lines, a prefix begins anew. -/
theorem prefixLines_append (lead : List Char) {first : List Char} (ends : EndsLine first)
    (second : List Char) :
    prefixLines lead (first ++ second) = prefixLines lead first ++ prefixLines lead second := by
  have broken : ∀ front back,
      leadAll lead (front ++ '\n' :: back) =
        leadAll lead front ++ '\n' :: lead ++ leadAll lead back := by
    intro front back
    simp [leadAll]
  rcases ends with rfl | ⟨front, rfl⟩
  · rw [prefixLines_nil, List.nil_append, List.nil_append]
  · rcases ends_cases second with rfl | ⟨body, rfl⟩ | ⟨body, c, other, rfl⟩
    · rw [prefixLines_nil, List.append_nil, List.append_nil]
    · rw [prefixLines_newline, prefixLines_newline, ← List.append_assoc, prefixLines_newline,
        List.append_assoc front, List.singleton_append, broken]
      simp
    · rw [prefixLines_newline, prefixLines_concat body other, ← List.append_assoc,
        prefixLines_concat _ other, List.append_assoc front, List.singleton_append, broken]
      simp

theorem count_leadAll (clean : '\n' ∉ lead) (body : List Char) :
    (leadAll lead body).count '\n' = body.count '\n' := by
  induction body with
  | nil => rfl
  | cons c body inductionHypothesis =>
      have cut : leadAll lead (c :: body) =
          (if c = '\n' then '\n' :: lead else [c]) ++ leadAll lead body := rfl
      have none : lead.count '\n' = 0 := List.count_eq_zero_of_not_mem clean
      rw [cut, List.count_append, inductionHypothesis, List.count_cons]
      split
      next newline => simp [newline, none, Nat.add_comm]
      next other => simp [other]

theorem count_prefixLines (clean : '\n' ∉ lead) (text : List Char) :
    (prefixLines lead text).count '\n' = text.count '\n' := by
  have none : lead.count '\n' = 0 := List.count_eq_zero_of_not_mem clean
  rcases ends_cases text with rfl | ⟨body, rfl⟩ | ⟨front, c, other, rfl⟩
  · rw [prefixLines_nil]
  · simp only [prefixLines_newline, List.count_append, none, count_leadAll clean, Nat.zero_add]
  · simp only [prefixLines_concat front other, List.count_append, none, count_leadAll clean,
      Nat.zero_add]

theorem removePrefix_prefixLines (clean : '\n' ∉ lead) (text : List Char) :
    removePrefix lead (prefixLines lead text) = text := by
  have taken : ∀ line : List Char, ((lead ++ line).dropPrefix? lead).getD (lead ++ line) = line := by
    intro line
    rw [List.dropPrefix?_append_of_beq line (beq_self_eq_true lead), Option.getD_some]
  rw [removePrefix, openedLines_prefixLines clean, finalNewline_prefixLines, List.map_map]
  simp only [Function.comp_def, taken, List.map_id']
  exact unlines_openedLines text

theorem prefix_laws (clean : '\n' ∉ lead) {outer : List Char} (outerClean : '\n' ∉ outer)
    (first second : List Char) : PrefixLaws lead outer first second where
  composes := prefixLines_prefixLines clean outerClean first
  appends ends := prefixLines_append lead ends second
  newlines := count_prefixLines clean first
  marked := by
    rw [openedLines_prefixLines clean, List.forall_mem_map]
    exact fun line _ => List.prefix_append lead line
  removed := removePrefix_prefixLines clean first

theorem endsLine_prefixLines {text : List Char} (ends : EndsLine text) (lead : List Char) :
    EndsLine (prefixLines lead text) := by
  rcases ends with rfl | ⟨body, rfl⟩
  · rw [prefixLines_nil]
    exact endsLine_nil
  · rw [prefixLines_newline]
    exact endsLine_newline _

end

/-- So many copies of a text. -/
def copies (count : Nat) (text : String) : String := String.join (List.replicate count text)

theorem copies_succ (count : Nat) (text : String) :
    copies (count + 1) text = text ++ copies count text := by
  rw [copies, List.replicate_succ, String.join_cons, copies]

theorem newline_not_mem_copies {text : String} (clean : '\n' ∉ text.toList) (count : Nat) :
    '\n' ∉ (copies count text).toList := by
  simp [copies, clean]

theorem indentLines_append (lead : String) {first : String} (ends : EndsLine first.toList)
    (second : String) :
    indentLines lead (first ++ second) = indentLines lead first ++ indentLines lead second := by
  rw [← String.toList_inj]
  simp only [toList_indentLines, String.toList_append, prefixLines_append lead.toList ends]

/-- One more level of indentation is one more copy of it. -/
theorem indentLines_copies {indent : String} (clean : '\n' ∉ indent.toList) (depth : Nat)
    (text : String) :
    indentLines indent (indentLines (copies depth indent) text) =
      indentLines (copies (depth + 1) indent) text := by
  rw [← String.toList_inj]
  simp only [toList_indentLines, copies_succ, String.toList_append,
    prefixLines_prefixLines (newline_not_mem_copies clean depth) clean]

theorem indentLines_no_copies (indent text : String) :
    indentLines (copies 0 indent) text = text := by
  rw [← String.toList_inj, toList_indentLines]
  exact prefixLines_empty text.toList

end BlockVerilog.Text
