import BlockVerilog.Proofs.Text.Margins
import BlockVerilog.Proofs.Text.Tidied

/-!
What the last cleanup leaves of a text.

A text shows something from one of its lines to another. The cleanup drops the blank lines around
them, keeps one line break behind them if there was any, and goes through them line by line. What it
leaves is tidy, and a tidy text stays as it is.
-/

namespace BlockVerilog.Text

/-- What can be seen of a text. -/
def visibleChars (text : List Char) : List Char := text.filter fun c => !isBlank c

/-- The last line that shows something. Of the lines behind it a line break is left. -/
def closing (last : List Char) (after : List (List Char)) : List (List Char) :=
  if after = [] then [last] else [dropWhileEnd isBlank last, []]

/-- A text that has been cleaned up. -/
structure IsTidy (text : List Char) : Prop where
  /-- No line stands in front of the first one that shows something. -/
  opening : '\n' ∉ text.takeWhile isBlank
  /-- The white space at the end is a line break, or belongs to the last line. -/
  ending : EndsBroken text → takeWhileEnd isBlank text = ['\n']
  lineEnds : ∀ line ∈ lines text, ∀ c ∈ line.getLast?, isSpaceOrTab c = false

/-! ### Ends of lines -/

theorem isBlank_of_isSpaceOrTab {c : Char} (held : isSpaceOrTab c = true) : isBlank c = true := by
  rw [isSpaceOrTab, Bool.or_eq_true, decide_eq_true_eq, decide_eq_true_eq] at held
  rcases held with rfl | rfl <;> decide

theorem prefix_dropWhileEnd (p : Char → Bool) (text : List Char) : dropWhileEnd p text <+: text :=
  ⟨_, dropWhileEnd_append_takeWhileEnd p text⟩

theorem not_of_mem_getLast?_dropWhileEnd {p : Char → Bool} {text : List Char} {c : Char}
    (last : c ∈ (dropWhileEnd p text).getLast?) : p c = false := by
  rw [dropWhileEnd, List.getLast?_reverse] at last
  have head := List.head?_dropWhile_not p text.reverse
  rw [last] at head
  simpa using head

theorem dropWhileEnd_eq_self {p : Char → Bool} {text : List Char}
    (kept : ∀ c ∈ text.getLast?, p c = false) : dropWhileEnd p text = text := by
  rcases List.eq_nil_or_concat text with rfl | ⟨front, c, rfl⟩
  · rfl
  · have last : p c = false := kept c (by simp)
    simp [dropWhileEnd, last]

theorem closes_dropWhileEnd {text : List Char} (shown : ¬ AllBlank text) :
    closes (dropWhileEnd isBlank text) = true := by
  cases last : (dropWhileEnd isBlank text).getLast? with
  | none =>
      rw [List.getLast?_eq_none_iff, dropWhileEnd, List.reverse_eq_nil_iff,
        List.dropWhile_eq_nil_iff] at last
      exact absurd (fun c listed => last c (List.mem_reverse.mpr listed)) shown
  | some c => simp [closes, last, not_of_mem_getLast?_dropWhileEnd last]

theorem dropWhileEnd_isSpaceOrTab_of_closes {text : List Char} (closed : closes text = true) :
    dropWhileEnd isSpaceOrTab text = text := by
  obtain ⟨body, c, rfl, visible⟩ := exists_concat_of_closes closed
  apply dropWhileEnd_eq_self
  intro last found
  obtain rfl : c = last := by simpa using found
  exact Bool.eq_false_iff.mpr fun held => by simp [isBlank_of_isSpaceOrTab held] at visible

theorem not_allBlank_dropWhileEnd {p : Char → Bool} (blank : ∀ c, p c = true → isBlank c = true)
    {text : List Char} (shown : ¬ AllBlank text) : ¬ AllBlank (dropWhileEnd p text) := by
  intro none
  apply shown
  rw [← dropWhileEnd_append_takeWhileEnd p text, allBlank_append]
  exact ⟨none, fun c listed => blank c (mem_takeWhileEnd listed)⟩

/-- The white space in front of what is seen first does not depend on what follows. -/
theorem takeWhile_append_of_not_allBlank {text : List Char} (shown : ¬ AllBlank text)
    (rest : List Char) : (text ++ rest).takeWhile isBlank = text.takeWhile isBlank := by
  have short : ¬ (text.takeWhile isBlank).length = text.length := fun whole =>
    shown (List.takeWhile_eq_self_iff.mp ((List.takeWhile_prefix isBlank).eq_of_length whole))
  rw [List.takeWhile_append, if_neg short]

theorem takeWhile_dropWhileEnd {p : Char → Bool} (blank : ∀ c, p c = true → isBlank c = true)
    {text : List Char} (shown : ¬ AllBlank text) :
    (dropWhileEnd p text).takeWhile isBlank = text.takeWhile isBlank := by
  conv_rhs => rw [← dropWhileEnd_append_takeWhileEnd p text]
  rw [takeWhile_append_of_not_allBlank (not_allBlank_dropWhileEnd blank shown)]

theorem visibleChars_of_allBlank {text : List Char} (blank : AllBlank text) :
    visibleChars text = [] := by
  rw [visibleChars, List.filter_eq_nil_iff]
  intro c listed
  simp [blank c listed]

theorem visibleChars_dropWhileEnd {p : Char → Bool} (blank : ∀ c, p c = true → isBlank c = true)
    (text : List Char) : visibleChars (dropWhileEnd p text) = visibleChars text := by
  have all : AllBlank (takeWhileEnd p text) := fun c listed => blank c (mem_takeWhileEnd listed)
  conv_rhs => rw [← dropWhileEnd_append_takeWhileEnd p text]
  rw [visibleChars, visibleChars, List.filter_append, ← visibleChars, ← visibleChars,
    visibleChars_of_allBlank all, List.append_nil]

/-! ### Lines put together -/

theorem unlines_lines (text : List Char) : unlines (lines text) = text :=
  List.intercalate_splitOn '\n'

theorem unlines_cons (line : List Char) (rest : List (List Char)) :
    unlines (line :: rest) = line ++ rest.flatMap ('\n' :: ·) := by
  induction rest generalizing line with
  | nil => simp [unlines]
  | cons next rest inductionHypothesis =>
      have later := inductionHypothesis next
      rw [← List.singleton_append, unlines_append (List.cons_ne_nil line [])
        (List.cons_ne_nil next rest), later, unlines, List.intercalate_singleton]
      simp

theorem unlines_append_cons (front : List (List Char)) (line : List Char)
    (rest : List (List Char)) :
    unlines (front ++ line :: rest) = front.flatMap (· ++ ['\n']) ++ unlines (line :: rest) := by
  induction front with
  | nil => rfl
  | cons first front inductionHypothesis =>
      rw [List.cons_append, ← List.singleton_append, unlines_append (List.cons_ne_nil first [])
        (by simp), inductionHypothesis, unlines, List.intercalate_singleton]
      simp

theorem endsLine_ended (front : List (List Char)) :
    EndsLine (front.flatMap (· ++ ['\n'])) := by
  induction front with
  | nil => exact endsLine_nil
  | cons line front inductionHypothesis => exact (endsLine_newline line).append inductionHypothesis

/-- The lines that are put together are found again. -/
theorem lines_unlines_of_clean {ls : List (List Char)} (nonempty : ls ≠ [])
    (clean : ∀ line ∈ ls, '\n' ∉ line) : lines (unlines ls) = ls :=
  List.splitOn_intercalate '\n' clean nonempty

/-- The last line that shows something divides a text from the white space at its end. -/
theorem unlines_gap (front : List (List Char)) (last : List Char) (after : List (List Char)) :
    unlines (front ++ last :: after) =
      (front.flatMap (· ++ ['\n']) ++ dropWhileEnd isBlank last) ++
        (takeWhileEnd isBlank last ++ after.flatMap ('\n' :: ·)) := by
  rw [unlines_append_cons, unlines_cons]
  conv_lhs => rw [← dropWhileEnd_append_takeWhileEnd isBlank last]
  simp only [List.append_assoc]

theorem allBlank_behind {ls : List (List Char)} (blank : ∀ line ∈ ls, AllBlank line) :
    AllBlank (ls.flatMap ('\n' :: ·)) := by
  intro c listed
  obtain ⟨line, member, inside⟩ := List.mem_flatMap.mp listed
  rcases List.mem_cons.mp inside with rfl | inLine
  · exact isBlank_newline
  · exact blank line member c inLine

theorem allBlank_gap (last : List Char) {after : List (List Char)}
    (blank : ∀ line ∈ after, AllBlank line) :
    AllBlank (takeWhileEnd isBlank last ++ after.flatMap ('\n' :: ·)) :=
  allBlank_append.mpr ⟨fun _ => mem_takeWhileEnd, allBlank_behind blank⟩

theorem newline_mem_gap_iff {last : List Char} (clean : '\n' ∉ last)
    {after : List (List Char)} :
    '\n' ∈ takeWhileEnd isBlank last ++ after.flatMap ('\n' :: ·) ↔ after ≠ [] := by
  have inside : '\n' ∉ takeWhileEnd isBlank last := fun newline =>
    clean ((takeWhileEnd_suffix isBlank last).subset newline)
  rw [List.mem_append, or_iff_right inside]
  cases after <;> simp

/-! ### The steps of the cleanup -/

theorem dropLeadingLines_of_allBlank {text : List Char} (blank : AllBlank text) :
    dropLeadingLines text = takeWhileEnd (· ≠ '\n') text := by
  rw [dropLeadingLines, List.takeWhile_eq_self_iff.mpr blank, List.dropWhile_eq_nil_iff.mpr blank,
    List.append_nil]

/-- Behind whole lines, the white space up to the end of the text is that of its last line. -/
theorem takeWhileEnd_lastLine {front last : List Char} (ends : EndsLine front)
    (clean : '\n' ∉ last) : takeWhileEnd (· ≠ '\n') (front ++ last) = last := by
  have all : ∀ c ∈ last, decide (c ≠ '\n') = true := fun c listed =>
    decide_eq_true fun newline => clean (newline ▸ listed)
  rcases ends with rfl | ⟨body, rfl⟩
  · exact takeWhileEnd_of_all all
  · rw [List.append_assoc, List.singleton_append, takeWhileEnd_append_cons (by decide),
      takeWhileEnd_of_all all]

theorem dropLeadingLines_unlines {before : List (List Char)} {first : List Char}
    (blank : ∀ line ∈ before, AllBlank line) (shown : ¬ AllBlank first) (clean : '\n' ∉ first)
    (rest : List (List Char)) :
    dropLeadingLines (unlines (before ++ first :: rest)) = unlines (first :: rest) := by
  obtain ⟨indent, code, rfl, blankIndent, opened⟩ :
      ∃ indent code, first = indent ++ code ∧ AllBlank indent ∧ opens code = true := by
    refine ⟨first.takeWhile isBlank, first.dropWhile isBlank,
      (List.takeWhile_append_dropWhile ..).symm, fun c => List.mem_takeWhile_imp, ?_⟩
    cases head : (first.dropWhile isBlank).head? with
    | none => exact absurd (List.dropWhile_eq_nil_iff.mp (List.head?_eq_none_iff.mp head)) shown
    | some c =>
        have visible := List.head?_dropWhile_not isBlank first
        rw [head] at visible
        simpa [opens, head] using visible
  have blankLead : AllBlank (before.flatMap (· ++ ['\n']) ++ indent) := by
    refine allBlank_append.mpr ⟨fun c listed => ?_, blankIndent⟩
    obtain ⟨line, member, inside⟩ := List.mem_flatMap.mp listed
    rcases List.mem_append.mp inside with inside | newline
    · exact blank line member c inside
    · exact List.mem_singleton.mp newline ▸ isBlank_newline
  have cleanIndent : '\n' ∉ indent := fun newline => clean (List.mem_append_left code newline)
  have split : unlines (before ++ (indent ++ code) :: rest) =
      (before.flatMap (· ++ ['\n']) ++ indent) ++ (code ++ rest.flatMap ('\n' :: ·)) := by
    rw [unlines_append_cons, unlines_cons]
    simp only [List.append_assoc]
  rw [split, dropLeadingLines_append (opens_append opened _),
    dropLeadingLines_of_allBlank blankLead, takeWhileEnd_lastLine (endsLine_ended before)
    cleanIndent, unlines_cons, List.append_assoc]

theorem collapseEnd_append {body gap : List Char} (closed : closes body = true)
    (blank : AllBlank gap) :
    collapseEnd (body ++ gap) = if '\n' ∈ gap then body ++ ['\n'] else body ++ gap := by
  have taken := takeWhileEnd_gap closed blank
  have split := dropWhileEnd_append_takeWhileEnd isBlank (body ++ gap)
  rw [taken] at split
  rw [collapseEnd, taken, List.append_cancel_right split]

theorem closing_nil (last : List Char) : closing last [] = [last] := rfl

theorem closing_of_ne_nil {after : List (List Char)} (some : after ≠ []) (last : List Char) :
    closing last after = [dropWhileEnd isBlank last, []] := if_neg some

theorem newline_not_mem_of_mem_closing {last line : List Char} {after : List (List Char)}
    (clean : '\n' ∉ last) (listed : line ∈ closing last after) : '\n' ∉ line := by
  unfold closing at listed
  split at listed
  next => exact List.mem_singleton.mp listed ▸ clean
  next =>
    rw [List.mem_cons, List.mem_singleton] at listed
    rcases listed with rfl | rfl
    · exact fun newline => clean ((prefix_dropWhileEnd isBlank last).subset newline)
    · exact List.not_mem_nil

theorem collapseEnd_unlines {last : List Char} (shown : ¬ AllBlank last) (clean : '\n' ∉ last)
    {after : List (List Char)} (blank : ∀ line ∈ after, AllBlank line)
    (front : List (List Char)) :
    collapseEnd (unlines (front ++ last :: after)) = unlines (front ++ closing last after) := by
  have closed : closes (front.flatMap (· ++ ['\n']) ++ dropWhileEnd isBlank last) = true :=
    closes_append (closes_dropWhileEnd shown) _
  rw [unlines_gap, collapseEnd_append closed (allBlank_gap last blank)]
  by_cases none : after = []
  · rw [if_neg (mt (newline_mem_gap_iff clean).mp (not_not_intro none)), none, closing_nil,
      unlines_gap]
  · rw [if_pos ((newline_mem_gap_iff clean).mpr none), closing_of_ne_nil none, unlines_append_cons]
    simp [unlines]

/-! ### The lines that are kept -/

/-- The lines of a text: blank ones, those from the first to the last one that shows something, and
blank ones again. -/
structure Frames (text : List Char) (before front : List (List Char)) (last : List Char)
    (after : List (List Char)) : Prop where
  cut : lines text = before ++ (front ++ last :: after)
  before : ∀ line ∈ before, AllBlank line
  first : ∀ line ∈ front.head?, ¬ AllBlank line
  last : ¬ AllBlank last
  after : ∀ line ∈ after, AllBlank line

theorem exists_firstShown {ls : List (List Char)} (some : ∃ line ∈ ls, ¬ AllBlank line) :
    ∃ before first rest, ls = before ++ first :: rest ∧ (∀ line ∈ before, AllBlank line) ∧
      ¬ AllBlank first := by
  induction ls with
  | nil => simp at some
  | cons line ls inductionHypothesis =>
      by_cases blank : AllBlank line
      · rw [List.exists_mem_cons_iff, or_iff_right (not_not_intro blank)] at some
        obtain ⟨before, first, rest, rfl, blanks, shown⟩ := inductionHypothesis some
        exact ⟨line :: before, first, rest, rfl, List.forall_mem_cons.mpr ⟨blank, blanks⟩, shown⟩
      · exact ⟨[], line, ls, rfl, List.forall_mem_nil _, blank⟩

theorem exists_lastShown {ls : List (List Char)} (some : ∃ line ∈ ls, ¬ AllBlank line) :
    ∃ front last after, ls = front ++ last :: after ∧ ¬ AllBlank last ∧
      ∀ line ∈ after, AllBlank line := by
  obtain ⟨line, listed, shown⟩ := some
  obtain ⟨before, last, rest, split, blanks, lastShown⟩ :=
    exists_firstShown ⟨line, List.mem_reverse.mpr listed, shown⟩
  refine ⟨rest.reverse, last, before.reverse, ?_, lastShown, fun line listed =>
    blanks line (List.mem_reverse.mp listed)⟩
  rw [← List.reverse_reverse ls, split]
  simp

theorem exists_frames {text : List Char} (shown : ¬ AllBlank text) :
    ∃ before front last after, Frames text before front last after := by
  have some : ∃ line ∈ lines text, ¬ AllBlank line := by
    by_contra none
    push Not at none
    apply shown
    rw [← unlines_lines text]
    obtain ⟨first, rest, split⟩ := List.exists_cons_of_ne_nil (lines_ne_nil text)
    rw [split, List.forall_mem_cons] at none
    rw [split, unlines_cons, allBlank_append]
    exact ⟨none.1, allBlank_behind none.2⟩
  obtain ⟨before, first, rest, split, blankBefore, firstShown⟩ := exists_firstShown some
  obtain ⟨front, last, after, splitRest, lastShown, blankAfter⟩ :=
    exists_lastShown ⟨first, List.mem_cons_self (l := rest), firstShown⟩
  refine ⟨before, front, last, after, by rw [split, splitRest], blankBefore, ?_, lastShown,
    blankAfter⟩
  intro line head
  cases front with
  | nil => cases head
  | cons other front =>
      obtain rfl : other = line := Option.some.inj head
      obtain ⟨rfl, _⟩ := List.cons.inj splitRest
      exact firstShown

namespace Frames

variable {text : List Char} {before front after : List (List Char)} {last : List Char}

theorem newline_not_mem (frames : Frames text before front last after) {line : List Char}
    (listed : line ∈ front ++ last :: after) : '\n' ∉ line :=
  not_mem_of_mem_lines (frames.cut ▸ List.mem_append_right before listed)

theorem clean (frames : Frames text before front last after) : '\n' ∉ last :=
  frames.newline_not_mem (by simp)

/-- The first line that shows something, and those behind it. -/
theorem exists_first (frames : Frames text before front last after) :
    ∃ first rest, front ++ last :: after = first :: rest ∧ ¬ AllBlank first := by
  cases found : front with
  | nil => exact ⟨last, after, rfl, frames.last⟩
  | cons first front => exact ⟨first, _, rfl, frames.first first (by simp [found])⟩

theorem text_eq (frames : Frames text before front last after) :
    unlines (before ++ front ++ last :: after) = text := by
  rw [List.append_assoc, ← frames.cut, unlines_lines]

theorem takeWhileEnd_eq (frames : Frames text before front last after) :
    takeWhileEnd isBlank text = takeWhileEnd isBlank last ++ after.flatMap ('\n' :: ·) := by
  rw [← frames.text_eq, unlines_gap]
  exact takeWhileEnd_gap (closes_append (closes_dropWhileEnd frames.last) _)
    (allBlank_gap last frames.after)

theorem endsBroken_iff (frames : Frames text before front last after) :
    EndsBroken text ↔ after ≠ [] := by
  rw [EndsBroken, frames.takeWhileEnd_eq, newline_mem_gap_iff frames.clean]

/-- The cleanup keeps the lines that show something and those between them, without the spaces and
tabs at their ends; a line break behind them ends the last one. -/
theorem lines_tidy (frames : Frames text before front last after) :
    lines (tidy text) = (front ++ closing last after).map (dropWhileEnd isSpaceOrTab) := by
  obtain ⟨first, rest, split, shown⟩ := frames.exists_first
  have firstClean : '\n' ∉ first := frames.newline_not_mem (split ▸ List.mem_cons_self)
  have led : dropLeadingLines text = unlines (front ++ last :: after) := by
    rw [← frames.text_eq, List.append_assoc, split,
      dropLeadingLines_unlines frames.before shown firstClean]
  have clean : ∀ line ∈ front ++ closing last after, '\n' ∉ line := by
    intro line listed
    rcases List.mem_append.mp listed with inFront | atEnd
    · exact frames.newline_not_mem (List.mem_append_left _ inFront)
    · exact newline_not_mem_of_mem_closing frames.clean atEnd
  have nonempty : front ++ closing last after ≠ [] := by
    unfold closing
    split <;> simp
  rw [tidy, led, collapseEnd_unlines frames.last frames.clean frames.after, lines_stripLineEnds,
    lines_unlines_of_clean nonempty clean]

/-- What the cleanup leaves shows the same lines, with nothing in front of them and at most a line
break behind them. -/
theorem tidied (frames : Frames text before front last after) :
    Frames (tidy text) [] (front.map (dropWhileEnd isSpaceOrTab))
      (if after = [] then dropWhileEnd isSpaceOrTab last else dropWhileEnd isBlank last)
      (if after = [] then [] else [[]]) where
  cut := by
    rw [frames.lines_tidy]
    split
    next none => simp [none, closing_nil]
    next some =>
      have closed := closes_dropWhileEnd frames.last
      rw [closing_of_ne_nil some, List.map_append, List.map_cons,
        dropWhileEnd_isSpaceOrTab_of_closes closed]
      rfl
  before := List.forall_mem_nil _
  first := by
    intro line head
    rw [List.head?_map, Option.mem_def, Option.map_eq_some_iff] at head
    obtain ⟨line, head, rfl⟩ := head
    exact not_allBlank_dropWhileEnd (fun c => isBlank_of_isSpaceOrTab) (frames.first line head)
  last := by
    split
    · exact not_allBlank_dropWhileEnd (fun c => isBlank_of_isSpaceOrTab) frames.last
    · exact not_allBlank_of_closes (closes_dropWhileEnd frames.last)
  after := by
    split
    · exact List.forall_mem_nil _
    · exact List.forall_mem_singleton.mpr (List.forall_mem_nil _)

/-- The first line that shows something stays as far from the margin as it is. -/
theorem indent_tidy (frames : Frames text before front last after) :
    (lines (tidy text)).head?.map (List.takeWhile isBlank) =
      (front ++ [last]).head?.map (List.takeWhile isBlank) := by
  have lastIndent := takeWhile_dropWhileEnd (p := isBlank) (fun _ => id) frames.last
  have lineIndent {line : List Char} (shown : ¬ AllBlank line) :=
    takeWhile_dropWhileEnd (fun _ => isBlank_of_isSpaceOrTab) shown
  rw [frames.tidied.cut]
  cases front with
  | nil =>
      refine congrArg some ?_
      split
      · exact lineIndent frames.last
      · exact lastIndent
  | cons first front => exact congrArg some (lineIndent (frames.first first rfl))

end Frames

/-! ### Tidy texts -/

/-- A text without anything to see loses all its lines but the last one. -/
theorem tidy_of_allBlank {text : List Char} (blank : AllBlank text) :
    tidy text = dropWhileEnd isSpaceOrTab (takeWhileEnd (· ≠ '\n') text) := by
  have clean : '\n' ∉ takeWhileEnd (· ≠ '\n') text := fun newline =>
    absurd (mem_takeWhileEnd newline) (by decide)
  have whole : '\n' ∉ takeWhileEnd isBlank (takeWhileEnd (· ≠ '\n') text) :=
    not_endsBroken_of_not_mem clean
  have one : lines (takeWhileEnd (· ≠ '\n') text) = [takeWhileEnd (· ≠ '\n') text] :=
    lines_of_not_mem clean
  rw [tidy, dropLeadingLines_of_allBlank blank, collapseEnd, if_neg whole, stripLineEnds, one,
    List.map_singleton, unlines, List.intercalate_singleton]

theorem newline_not_mem_tidy {text : List Char} (blank : AllBlank text) : '\n' ∉ tidy text := by
  rw [tidy_of_allBlank blank]
  intro newline
  have inside := (prefix_dropWhileEnd _ _).subset newline
  exact absurd (mem_takeWhileEnd inside) (by decide)

theorem newline_not_mem_takeWhile {first : List Char} (shown : ¬ AllBlank first)
    (clean : '\n' ∉ first) (rest : List (List Char)) :
    '\n' ∉ (unlines (first :: rest)).takeWhile isBlank := by
  rw [unlines_cons, takeWhile_append_of_not_allBlank shown]
  exact fun newline => clean ((List.takeWhile_prefix isBlank).subset newline)

theorem isTidy_tidy (text : List Char) : IsTidy (tidy text) := by
  have lineEnds : ∀ line ∈ lines (tidy text), ∀ c ∈ line.getLast?, isSpaceOrTab c = false := by
    rw [tidy, lines_stripLineEnds, List.forall_mem_map]
    exact fun line _ c => not_of_mem_getLast?_dropWhileEnd
  by_cases blank : AllBlank text
  · have clean := newline_not_mem_tidy blank
    exact ⟨fun newline => clean ((List.takeWhile_prefix isBlank).subset newline),
      fun broken => absurd broken (not_endsBroken_of_not_mem clean), lineEnds⟩
  · obtain ⟨before, front, last, after, frames⟩ := exists_frames blank
    refine ⟨?_, fun broken => ?_, lineEnds⟩
    · obtain ⟨first, rest, split, shown⟩ := frames.tidied.exists_first
      rw [← frames.tidied.text_eq, List.nil_append, split]
      exact newline_not_mem_takeWhile shown
        (frames.tidied.newline_not_mem (split ▸ List.mem_cons_self)) rest
    · have ended : after ≠ [] := by
        rintro rfl
        exact frames.tidied.endsBroken_iff.mp broken (if_pos rfl)
      have none := takeWhileEnd_gap (closes_dropWhileEnd frames.last) (List.forall_mem_nil _)
      rw [List.append_nil] at none
      rw [frames.tidied.takeWhileEnd_eq, if_neg ended, if_neg ended, none]
      rfl

/-- A tidy text stays as it is. -/
theorem tidy_eq_self {text : List Char} (clean : IsTidy text) : tidy text = text := by
  have led : dropLeadingLines text = text := by
    have all : ∀ c ∈ text.takeWhile isBlank, decide (c ≠ '\n') = true := fun c listed =>
      decide_eq_true fun newline => clean.opening (newline ▸ listed)
    rw [dropLeadingLines, takeWhileEnd_of_all all, List.takeWhile_append_dropWhile]
  have ended : collapseEnd text = text := by
    unfold collapseEnd
    split
    next broken =>
      rw [← clean.ending broken, dropWhileEnd_append_takeWhileEnd]
    next => rfl
  have stripped : (lines text).map (dropWhileEnd isSpaceOrTab) = lines text :=
    (List.map_congr_left fun line listed => dropWhileEnd_eq_self (clean.lineEnds line listed)).trans
      (List.map_id _)
  rw [tidy, led, ended, stripLineEnds, stripped, unlines_lines]

namespace IsTidy

variable {text : List Char}

/-- The first line shows something if there is something to show. -/
theorem firstShown (clean : IsTidy text) (shown : ¬ AllBlank text) :
    ∀ line ∈ (lines text).head?, ¬ AllBlank line := by
  intro line head blank
  obtain ⟨first, rest, split⟩ := List.exists_cons_of_ne_nil (lines_ne_nil text)
  rw [split] at head
  obtain rfl : first = line := Option.some.inj head
  have opening := clean.opening
  rw [← unlines_lines text, split, unlines_cons] at opening shown
  cases rest with
  | nil => exact shown (by simpa using blank)
  | cons next rest =>
      apply opening
      rw [List.flatMap_cons, List.cons_append, List.takeWhile_append_of_pos blank,
        List.takeWhile_cons_of_pos isBlank_newline]
      exact List.mem_append_right _ List.mem_cons_self

/-- There is one line break at the end at most. -/
theorem oneNewline (clean : IsTidy text) : ¬ ['\n', '\n'] <:+ text := by
  rintro ⟨front, rfl⟩
  have all : ∀ c ∈ ['\n', '\n'], isBlank c = true := by simp [isBlank_newline]
  have taken := takeWhileEnd_append_of_all all front
  have broken : EndsBroken (front ++ ['\n', '\n']) := by
    rw [EndsBroken, taken]
    simp
  have long := congrArg List.length (taken.symm.trans (clean.ending broken))
  simp at long

end IsTidy

/-! ### What can be seen -/

theorem visibleChars_append (first second : List Char) :
    visibleChars (first ++ second) = visibleChars first ++ visibleChars second :=
  List.filter_append ..

theorem visibleChars_unlines (ls : List (List Char)) :
    visibleChars (unlines ls) = ls.flatMap visibleChars := by
  cases ls with
  | nil => rfl
  | cons line rest =>
      have newline : ∀ line, visibleChars ('\n' :: line) = visibleChars line := fun line =>
        List.filter_cons_of_neg (by simp [isBlank_newline])
      rw [unlines_cons, visibleChars_append, List.flatMap_cons]
      congr 1
      rw [visibleChars, List.filter_flatMap]
      exact List.flatMap_congr fun line _ => newline line

theorem visibleChars_dropLeadingLines (text : List Char) :
    visibleChars (dropLeadingLines text) = visibleChars text := by
  have blank : AllBlank (text.takeWhile isBlank) := fun c => List.mem_takeWhile_imp
  have indent : AllBlank (takeWhileEnd (· ≠ '\n') (text.takeWhile isBlank)) := fun c listed =>
    blank c ((takeWhileEnd_suffix _ _).subset listed)
  conv_rhs => rw [← List.takeWhile_append_dropWhile (p := isBlank) (l := text)]
  rw [dropLeadingLines, visibleChars_append, visibleChars_append, visibleChars_of_allBlank indent,
    visibleChars_of_allBlank blank]

theorem visibleChars_collapseEnd (text : List Char) :
    visibleChars (collapseEnd text) = visibleChars text := by
  unfold collapseEnd
  split
  next =>
    rw [visibleChars_append, visibleChars_dropWhileEnd fun _ => id]
    exact List.append_nil _
  next => rfl

theorem visibleChars_stripLineEnds (text : List Char) :
    visibleChars (stripLineEnds text) = visibleChars text := by
  conv_rhs => rw [← unlines_lines text]
  rw [stripLineEnds, visibleChars_unlines, visibleChars_unlines, List.flatMap_map]
  exact List.flatMap_congr fun line _ =>
    visibleChars_dropWhileEnd (fun c => isBlank_of_isSpaceOrTab) line

theorem visibleChars_tidy (text : List Char) : visibleChars (tidy text) = visibleChars text := by
  rw [tidy, visibleChars_stripLineEnds, visibleChars_collapseEnd, visibleChars_dropLeadingLines]

/-! ### The cleanup of any text -/

theorem endsBroken_tidy_iff {text : List Char} (shown : ¬ AllBlank text) :
    EndsBroken (tidy text) ↔ EndsBroken text := by
  obtain ⟨before, front, last, after, frames⟩ := exists_frames shown
  rw [frames.tidied.endsBroken_iff, frames.endsBroken_iff]
  by_cases none : after = [] <;> simp [none]

theorem IsTidy.endsBroken_iff {text : List Char} (clean : IsTidy text) :
    EndsBroken text ↔ ['\n'] <:+ text := by
  constructor
  · exact fun broken => clean.ending broken ▸ takeWhileEnd_suffix isBlank text
  · rintro ⟨front, rfl⟩
    exact (endsBroken_append_newline List.not_mem_nil front).mpr (List.forall_mem_nil _)

theorem newline_suffix_tidy_iff (text : List Char) :
    ['\n'] <:+ tidy text ↔ ¬ AllBlank text ∧ EndsBroken text := by
  by_cases blank : AllBlank text
  · have clean := newline_not_mem_tidy blank
    exact iff_of_false (fun ended => clean (ended.subset List.mem_cons_self)) fun h => h.1 blank
  · rw [← (isTidy_tidy text).endsBroken_iff, endsBroken_tidy_iff blank, and_iff_right blank]

/-- The cleanup is a normal form that loses nothing that can be seen. -/
theorem tidy_lossless (text : List Char) :
    tidy (tidy text) = tidy text ∧
      visibleChars (tidy text) = visibleChars text ∧
      (∀ line ∈ lines (tidy text), ∀ c ∈ line.getLast?, isSpaceOrTab c = false) ∧
      (¬ AllBlank (tidy text) → ∀ first ∈ (lines (tidy text)).head?, ¬ AllBlank first) ∧
      ¬ ['\n', '\n'] <:+ tidy text ∧
      (['\n'] <:+ tidy text ↔ ¬ AllBlank text ∧ EndsBroken text) ∧
      (¬ AllBlank text → ∃ before front last after, Frames text before front last after ∧
        lines (tidy text) = (front ++ closing last after).map (dropWhileEnd isSpaceOrTab) ∧
        (lines (tidy text)).head?.map (List.takeWhile isBlank) =
          (front ++ [last]).head?.map (List.takeWhile isBlank)) := by
  have clean := isTidy_tidy text
  refine ⟨tidy_eq_self clean, visibleChars_tidy text, clean.lineEnds, clean.firstShown,
    clean.oneNewline, newline_suffix_tidy_iff text, fun shown => ?_⟩
  obtain ⟨before, front, last, after, frames⟩ := exists_frames shown
  exact ⟨before, front, last, after, frames, frames.lines_tidy, frames.indent_tidy⟩

-- At the end of a line that is kept a no-break space stays, at the end of the text it does not.
example : tidy " \n  a\u00a0\t\n\nb\u00a0\n ".toList = "  a\u00a0\n\nb\n".toList := by decide

end BlockVerilog.Text
