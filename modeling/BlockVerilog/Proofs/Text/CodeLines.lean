import Mathlib.Data.List.TakeWhile
import Mathlib.Tactic.Conv
import BlockVerilog.Text.Comment
import BlockVerilog.Text.Tidy

/-!
What of a text is code.

The code lines of a text are its lines without the blanks around them, less the empty ones and the
comments. They go through whole lines one by one, so that they can be told of texts put together at
line ends; indentation and the last cleanup leave them as they are.
-/

namespace BlockVerilog.Text

/-- A line without the spaces and tabs around it. -/
def strip (line : List Char) : List Char :=
  dropWhileEnd isSpaceOrTab (line.dropWhile isSpaceOrTab)

/-- Neither empty nor a comment. -/
def isCode (line : List Char) : Bool :=
  line ≠ [] && !List.isPrefixOf ['/', '/'] line

def codeLines (text : List Char) : List (List Char) :=
  ((lines text).map strip).filter isCode

theorem lines_append_newline (first second : List Char) :
    lines (first ++ '\n' :: second) = lines first ++ lines second := by
  simp only [lines, List.splitOn_eq_splitOnP]
  exact List.splitOnP_append_cons first second rfl

theorem lines_of_not_mem {line : List Char} (one : '\n' ∉ line) : lines line = [line] :=
  List.splitOn_eq_singleton one

theorem not_mem_of_mem_splitOn {separator : Char} {text piece : List Char}
    (member : piece ∈ text.splitOn separator) : separator ∉ piece := by
  induction text generalizing piece with
  | nil =>
      rw [List.splitOn_nil, List.mem_singleton] at member
      simp [member]
  | cons c text inductionHypothesis =>
      rw [List.splitOn_cons_eq_if_modifyHead] at member
      split at member
      next =>
        rcases List.mem_cons.mp member with rfl | later
        · exact List.not_mem_nil
        · exact inductionHypothesis later
      next other =>
        cases held : text.splitOn separator with
        | nil => exact absurd held (List.splitOn_ne_nil _ _)
        | cons first rest =>
            rw [held, List.modifyHead_cons] at member
            rcases List.mem_cons.mp member with rfl | later
            · have clean := inductionHypothesis (held ▸ List.mem_cons_self)
              exact List.not_mem_cons_of_ne_of_not_mem (fun same => other (by simp [← same])) clean
            · exact inductionHypothesis (held ▸ List.mem_cons_of_mem first later)

theorem not_mem_of_mem_lines {text line : List Char} (member : line ∈ lines text) :
    '\n' ∉ line := not_mem_of_mem_splitOn member

theorem codeLines_append_newline (first second : List Char) :
    codeLines (first ++ '\n' :: second) = codeLines first ++ codeLines second := by
  simp only [codeLines, lines_append_newline, List.map_append, List.filter_append]

@[simp] theorem codeLines_nil : codeLines [] = [] := rfl

@[simp] theorem codeLines_newline (text : List Char) :
    codeLines (text ++ ['\n']) = codeLines text := by
  rw [codeLines_append_newline, codeLines_nil, List.append_nil]

/-- A text of whole lines: empty, or ended by a newline. -/
def EndsLine (text : List Char) : Prop := text = [] ∨ ∃ body, text = body ++ ['\n']

theorem endsLine_nil : EndsLine [] := .inl rfl

theorem endsLine_newline (body : List Char) : EndsLine (body ++ ['\n']) := .inr ⟨body, rfl⟩

theorem EndsLine.append {first second : List Char} (ends : EndsLine first)
    (alsoEnds : EndsLine second) : EndsLine (first ++ second) := by
  rcases alsoEnds with rfl | ⟨body, rfl⟩
  · rwa [List.append_nil]
  · rw [← List.append_assoc]
    exact endsLine_newline _

/-- Behind whole lines, code lines begin anew. -/
theorem codeLines_append {first : List Char} (ends : EndsLine first) (second : List Char) :
    codeLines (first ++ second) = codeLines first ++ codeLines second := by
  rcases ends with rfl | ⟨body, rfl⟩
  · rfl
  · rw [List.append_assoc, List.singleton_append, codeLines_append_newline, codeLines_newline]

/-! ### Prefixed lines -/

/-- A text whose lines all got a prefix, the first one apart. -/
def leadAll (lead body : List Char) : List Char :=
  body.flatMap fun c => if c = '\n' then '\n' :: lead else [c]

theorem prefixLines_of_ne_nil {text : List Char} (lead : List Char) (nonempty : text ≠ []) :
    prefixLines lead text =
      lead ++ leadAll lead (withoutFinalNewline text) ++ finalNewline text := if_neg nonempty

theorem lines_leadAll {lead line : List Char} (leadClean : '\n' ∉ lead) (lineClean : '\n' ∉ line)
    (body : List Char) :
    lines (lead ++ line ++ leadAll lead body) = (lines (line ++ body)).map (lead ++ ·) := by
  induction body generalizing line with
  | nil =>
      have clean : '\n' ∉ lead ++ line := by simp [leadClean, lineClean]
      simp [leadAll, lines_of_not_mem clean, lines_of_not_mem lineClean]
  | cons c body inductionHypothesis =>
      -- a newline completes the line; any other character goes on with it
      by_cases newline : c = '\n'
      · have clean : '\n' ∉ lead ++ line := by simp [leadClean, lineClean]
        have later := inductionHypothesis List.not_mem_nil
        rw [List.append_nil, List.nil_append] at later
        have split : leadAll lead (c :: body) = '\n' :: (lead ++ leadAll lead body) := by
          simp [leadAll, newline]
        rw [split, lines_append_newline, later, newline, lines_append_newline, List.map_append,
          lines_of_not_mem clean, lines_of_not_mem lineClean]
        rfl
      · have longer : '\n' ∉ line ++ [c] := by simp [lineClean, Ne.symm newline]
        have later := inductionHypothesis longer
        simpa [leadAll, newline] using later

theorem codeLines_append_finalNewline (text other : List Char) :
    codeLines (text ++ finalNewline other) = codeLines text := by
  unfold finalNewline
  split
  next => exact codeLines_newline text
  next => rw [List.append_nil]

theorem codeLines_prefixLines {lead : List Char} (leadClean : '\n' ∉ lead) (text : List Char) :
    codeLines (prefixLines lead text) =
      if text = [] then []
      else ((lines (withoutFinalNewline text)).map fun line => strip (lead ++ line)).filter
        isCode := by
  split
  next empty => rw [empty, prefixLines_nil, codeLines_nil]
  next nonempty =>
    have found : codeLines (lead ++ leadAll lead (withoutFinalNewline text)) =
        ((lines (withoutFinalNewline text)).map fun line => strip (lead ++ line)).filter
          isCode := by
      have inner := lines_leadAll leadClean (List.not_mem_nil (a := '\n'))
        (withoutFinalNewline text)
      rw [List.append_nil, List.nil_append] at inner
      rw [codeLines, inner, List.map_map]
      rfl
    rw [prefixLines_of_ne_nil lead nonempty, codeLines_append_finalNewline, found]

theorem dropWhileEnd_append (p : Char → Bool) (first second : List Char) :
    dropWhileEnd p (first ++ second) =
      if dropWhileEnd p second = [] then dropWhileEnd p first
      else first ++ dropWhileEnd p second := by
  simp only [dropWhileEnd, List.reverse_append, List.dropWhile_append, List.reverse_eq_nil_iff,
    List.isEmpty_iff]
  split <;> simp

theorem dropWhile_lead {lead : List Char} (blank : ∀ c ∈ lead, isSpaceOrTab c = true)
    (line : List Char) :
    (lead ++ line).dropWhile isSpaceOrTab = line.dropWhile isSpaceOrTab :=
  List.dropWhile_append_of_pos blank

theorem codeLines_indent {lead : List Char} (blank : ∀ c ∈ lead, isSpaceOrTab c = true)
    (text : List Char) : codeLines (prefixLines lead text) = codeLines text := by
  have clean : '\n' ∉ lead := fun listed => absurd (blank _ listed) (by decide)
  have same : ∀ line, strip (lead ++ line) = strip line := fun line => by
    rw [strip, dropWhile_lead blank, strip]
  rw [codeLines_prefixLines clean]
  split
  next empty => rw [empty, codeLines_nil]
  next =>
    conv_rhs => rw [← withoutFinalNewline_append_finalNewline text]
    rw [codeLines_append_finalNewline, codeLines]
    simp only [same]

theorem isCode_commentMark (line : List Char) : isCode (strip (commentMark ++ line)) = false := by
  have begins : (commentMark ++ line).dropWhile isSpaceOrTab = ['/', '/'] ++ (' ' :: line) := rfl
  have marked : ∃ rest, strip (commentMark ++ line) = ['/', '/'] ++ rest := by
    rw [strip, begins, dropWhileEnd_append]
    split
    next => exact ⟨[], rfl⟩
    next => exact ⟨_, rfl⟩
  obtain ⟨rest, same⟩ := marked
  rw [same]
  rfl

theorem codeLines_comment (text : List Char) : codeLines (prefixLines commentMark text) = [] := by
  rw [codeLines_prefixLines (by decide)]
  split
  next => rfl
  next => simp [List.filter_eq_nil_iff, isCode_commentMark]

/-! ### The last cleanup -/

theorem dropWhileEnd_of_all {p : Char → Bool} {text : List Char} (all : ∀ c ∈ text, p c = true) :
    dropWhileEnd p text = [] := by
  rw [dropWhileEnd, List.reverse_eq_nil_iff, List.dropWhile_eq_nil_iff]
  exact fun c listed => all c (List.mem_reverse.mp listed)

theorem mem_takeWhileEnd {p : Char → Bool} {text : List Char} {c : Char}
    (listed : c ∈ takeWhileEnd p text) : p c = true :=
  List.mem_takeWhile_imp (List.mem_reverse.mp listed)

theorem strip_dropWhileEnd (line : List Char) :
    strip (dropWhileEnd isSpaceOrTab line) = strip line := by
  have all : ∀ c ∈ takeWhileEnd isSpaceOrTab line, isSpaceOrTab c = true :=
    fun c => mem_takeWhileEnd
  conv_rhs => rw [← dropWhileEnd_append_takeWhileEnd isSpaceOrTab line]
  rw [strip, strip, List.dropWhile_append]
  split
  next empty =>
    rw [List.isEmpty_iff] at empty
    rw [empty, List.dropWhile_eq_nil_iff.mpr all]
  next => rw [dropWhileEnd_append, if_pos (dropWhileEnd_of_all all)]

/-- The last cleanup of line ends goes line by line. -/
theorem lines_stripLineEnds (text : List Char) :
    lines (stripLineEnds text) = (lines text).map (dropWhileEnd isSpaceOrTab) := by
  have pieces : ∀ line ∈ (lines text).map (dropWhileEnd isSpaceOrTab), '\n' ∉ line := by
    rw [List.forall_mem_map]
    intro line listed newline
    have kept : dropWhileEnd isSpaceOrTab line ⊆ line := by
      conv_rhs => rw [← dropWhileEnd_append_takeWhileEnd isSpaceOrTab line]
      exact List.subset_append_left _ _
    exact not_mem_of_mem_lines listed (kept newline)
  have nonempty : (lines text).map (dropWhileEnd isSpaceOrTab) ≠ [] := by
    rw [ne_eq, List.map_eq_nil_iff]
    exact List.splitOn_ne_nil _ _
  exact List.splitOn_intercalate '\n' pieces nonempty

theorem codeLines_stripLineEnds (text : List Char) :
    codeLines (stripLineEnds text) = codeLines text := by
  rw [codeLines, lines_stripLineEnds, List.map_map, codeLines]
  congr 2
  funext line
  exact strip_dropWhileEnd line

/-- The first character of a text is visible. -/
def opens (text : List Char) : Bool := text.head?.any fun c => !isBlank c

/-- The last character of a text is visible. -/
def closes (text : List Char) : Bool := text.getLast?.any fun c => !isBlank c

/-- A newline ends a text, and something visible stands before it. -/
def ClosesLine (text : List Char) : Prop := ∃ body, text = body ++ ['\n'] ∧ closes body = true

theorem opens_append {first : List Char} (opened : opens first = true) (second : List Char) :
    opens (first ++ second) = true := by
  cases first with
  | nil => cases opened
  | cons c rest => exact opened

theorem closes_append {second : List Char} (closed : closes second = true) (first : List Char) :
    closes (first ++ second) = true := by
  unfold closes at closed ⊢
  cases last : second.getLast? with
  | none => simp [last] at closed
  | some c =>
      rw [List.getLast?_append, last]
      simpa [last] using closed

theorem ClosesLine.append {second : List Char} (closed : ClosesLine second) (first : List Char) :
    ClosesLine (first ++ second) := by
  obtain ⟨body, rfl, visible⟩ := closed
  exact ⟨first ++ body, (List.append_assoc ..).symm, closes_append visible first⟩

theorem ClosesLine.endsLine {text : List Char} (closed : ClosesLine text) : EndsLine text := by
  obtain ⟨body, rfl, _⟩ := closed
  exact endsLine_newline body

theorem exists_cons_of_opens {text : List Char} (opened : opens text = true) :
    ∃ c rest, text = c :: rest ∧ isBlank c = false := by
  cases text with
  | nil => cases opened
  | cons c rest => exact ⟨c, rest, rfl, by simpa [opens] using opened⟩

theorem exists_concat_of_closes {text : List Char} (closed : closes text = true) :
    ∃ body c, text = body ++ [c] ∧ isBlank c = false := by
  cases last : text.getLast? with
  | none => simp [closes, last] at closed
  | some c =>
      obtain ⟨body, rfl⟩ := List.getLast?_eq_some_iff.mp last
      exact ⟨body, c, rfl, by simpa [closes] using closed⟩

theorem dropLeadingLines_append {code : List Char} (opened : opens code = true)
    (lead : List Char) : dropLeadingLines (lead ++ code) = dropLeadingLines lead ++ code := by
  obtain ⟨c, rest, rfl, visible⟩ := exists_cons_of_opens opened
  have dropped : (c :: rest).dropWhile isBlank = c :: rest :=
    List.dropWhile_cons_of_neg (by simp [visible])
  have taken : (c :: rest).takeWhile isBlank = [] := List.takeWhile_cons_of_neg (by simp [visible])
  have all : (lead ++ c :: rest).takeWhile isBlank = lead.takeWhile isBlank := by
    rw [List.takeWhile_append, taken, List.append_nil]
    split
    next whole => exact ((List.takeWhile_prefix isBlank).eq_of_length whole).symm
    next => rfl
  rw [dropLeadingLines, dropLeadingLines, all, List.dropWhile_append, dropped, List.append_assoc]
  split
  next empty => rw [List.isEmpty_iff.mp empty, List.nil_append]
  next => rfl

theorem endsLine_dropLeadingLines {lead : List Char} (ends : EndsLine lead) :
    EndsLine (dropLeadingLines lead) := by
  rcases ends with rfl | ⟨body, rfl⟩
  · exact endsLine_nil
  · by_cases blank : ∀ c ∈ body ++ ['\n'], isBlank c = true
    · left
      rw [dropLeadingLines, List.takeWhile_eq_self_iff.mpr blank,
        List.dropWhile_eq_nil_iff.mpr blank]
      simp [takeWhileEnd]
    · have visible : ¬ (body.dropWhile isBlank).isEmpty = true := by
        rw [List.isEmpty_iff, List.dropWhile_eq_nil_iff]
        intro all
        apply blank
        rw [List.forall_mem_append, List.forall_mem_singleton]
        exact ⟨all, by decide⟩
      rw [dropLeadingLines, List.dropWhile_append, if_neg visible, ← List.append_assoc]
      exact endsLine_newline _

theorem collapseEnd_of_closesLine {text : List Char} (closed : ClosesLine text) :
    collapseEnd text = text := by
  obtain ⟨_, rfl, closed⟩ := closed
  obtain ⟨body, c, rfl, visible⟩ := exists_concat_of_closes closed
  have newline : isBlank '\n' = true := by decide
  simp [collapseEnd, takeWhileEnd, dropWhileEnd, newline, visible]

/-- The last cleanup keeps the code of a text that begins and ends visibly; what stands before it is
cleaned up apart from it. -/
theorem codeLines_tidy {lead code : List Char} (ends : EndsLine lead) (opened : opens code = true)
    (closed : ClosesLine code) :
    codeLines (tidy (lead ++ code)) = codeLines (dropLeadingLines lead) ++ codeLines code := by
  rw [tidy, codeLines_stripLineEnds, dropLeadingLines_append opened,
    collapseEnd_of_closesLine (closed.append _), codeLines_append (endsLine_dropLeadingLines ends)]

end BlockVerilog.Text
