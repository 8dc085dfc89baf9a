import BlockVerilog.Proofs.Text.Margins
import BlockVerilog.Proofs.Text.Wrapping

/-!
The lines of a comment block.

Wrapping keeps the line breaks of a comment, and every line it leaves gets the comment mark. Only
where the comment is broken at its end the block closes with a line that is bare: its last line has
nothing to show, the break in front of it counts as the end of the text that is marked, and the
block puts another one behind it.
-/

namespace BlockVerilog.Text

/-! ### Wrapping, line by line -/

theorem words_eq_nil_iff {text : List Char} : words text = [] ↔ AllBlank text := by
  constructor
  · intro none
    have falls : FallsInto text [] := fallsInto_iff.mpr none.symm
    cases falls with
    | blank blanks => exact blanks
  · exact words_of_blanks

theorem wrap_append_newline (limit : Nat) (first second : List Char) :
    wrap limit (first ++ '\n' :: second) = wrap limit first ++ '\n' :: wrap limit second := by
  have nonempty : ∀ text, (layouts (max limit 1) text).flatMap (·.map joinWords) ≠ [] := by
    intro text
    rw [← lines_wrap]
    exact lines_ne_nil _
  have split : layouts (max limit 1) (first ++ '\n' :: second) =
      layouts (max limit 1) first ++ layouts (max limit 1) second := by
    rw [layouts, lines_append_newline, List.map_append]
    rfl
  rw [wrap_eq, split, List.flatMap_append, unlines_append (nonempty first) (nonempty second),
    ← wrap_eq, ← wrap_eq]

theorem wrap_of_allBlank {line : List Char} (one : '\n' ∉ line) (blank : AllBlank line)
    (limit : Nat) : wrap limit line = [] := by
  rw [wrap, lines_of_not_mem one, List.flatMap_singleton, words_eq_nil_iff.mpr blank]
  rfl

theorem closes_wrap {line : List Char} (one : '\n' ∉ line) (shown : ¬ AllBlank line)
    (limit : Nat) : closes (wrap limit line) = true := by
  have laidOut : IsLayout (max limit 1) line (fill (max limit 1) (words line)) :=
    isLayout_iff.mpr rfl
  rcases laidOut.filled with empty | ⟨some, filled⟩
  · have none := laidOut.cut
    rw [empty] at none
    exact absurd (words_eq_nil_iff.mp none.eq_words.symm) shown
  · obtain ⟨front, last, split⟩ := (List.eq_nil_or_concat _).resolve_left some
    rw [List.concat_eq_append] at split
    rw [split] at laidOut filled
    have listed : last ∈ front ++ [last] := by simp
    have closed := (opens_closes_joinWords (filled.nonempty last listed)
      (laidOut.visible listed)).2
    rw [wrap, lines_of_not_mem one, List.flatMap_singleton, split, List.map_append]
    by_cases alone : front.map joinWords = []
    · rw [alone]
      simpa [unlines] using closed
    · rw [unlines_append alone (by simp)]
      simpa [unlines] using closes_append (closes_append closed ['\n']) _

/-- Wrapping leaves nothing of a single line without words, and only of that. -/
theorem wrap_eq_nil_iff {limit : Nat} {text : List Char} :
    wrap limit text = [] ↔ '\n' ∉ text ∧ AllBlank text := by
  constructor
  · intro empty
    rcases exists_lastLine text with one | ⟨front, last, rfl, _⟩
    · refine ⟨one, ?_⟩
      by_contra shown
      have closed := closes_wrap one shown limit
      rw [empty] at closed
      cases closed
    · rw [wrap_append_newline] at empty
      simp at empty
  · rintro ⟨one, blank⟩
    exact wrap_of_allBlank one blank limit

/-- A wrapped text ends in a line break exactly if the text was broken at its end. -/
theorem wrap_cases (limit : Nat) (text : List Char) :
    (EndsBroken text ∧ ∃ body, wrap limit text = body ++ ['\n']) ∨
      (¬ EndsBroken text ∧ (wrap limit text = [] ∨ closes (wrap limit text) = true)) := by
  rcases exists_lastLine text with one | ⟨front, last, rfl, clean⟩
  · refine .inr ⟨not_endsBroken_of_not_mem one, ?_⟩
    by_cases blank : AllBlank text
    · exact .inl (wrap_of_allBlank one blank limit)
    · exact .inr (closes_wrap one blank limit)
  · rw [endsBroken_append_newline clean, wrap_append_newline]
    by_cases blank : AllBlank last
    · rw [wrap_of_allBlank clean blank]
      exact .inl ⟨blank, _, rfl⟩
    · refine .inr ⟨blank, .inr ?_⟩
      exact closes_append (closes_append (closes_wrap clean blank limit) ['\n']) _

/-! ### Blocks -/

/-- Whole lines, every one of which opens with the comment mark. -/
structure IsCommentLines (text : List Char) : Prop where
  endsLine : EndsLine text
  marked : ∀ line ∈ fullLines text, commentMark <+: line

theorem isCommentLines_nil : IsCommentLines [] := ⟨endsLine_nil, List.forall_mem_nil _⟩

/-- A bare line is no comment line. -/
theorem not_isCommentLines_newline {block : List Char} (ends : EndsLine block) :
    ¬ IsCommentLines (block ++ ['\n']) := by
  intro comments
  have bare : [] ∈ fullLines (block ++ ['\n']) := by
    rw [fullLines_append ends]
    exact List.mem_append_right _ (by decide)
  exact absurd (comments.marked [] bare) (by decide)

theorem commentBlock_of_ne_nil {width : Nat} {comment : List Char}
    (nonempty : wrap (width - commentMark.length) comment ≠ []) :
    commentBlock width comment =
      prefixLines commentMark (wrap (width - commentMark.length) comment) ++ ['\n'] := by
  unfold commentBlock
  split
  next empty => exact absurd empty nonempty
  next => rfl

theorem commentBlock_eq_nil_iff {width : Nat} {comment : List Char} :
    commentBlock width comment = [] ↔ wrap (width - commentMark.length) comment = [] := by
  constructor
  · intro empty
    by_contra nonempty
    rw [commentBlock_of_ne_nil nonempty] at empty
    simp at empty
  · intro empty
    rw [commentBlock, empty]

/-- Text that does not end in a line break is marked line by line. -/
theorem fullLines_commentBlock {width : Nat} {comment : List Char}
    (closed : closes (wrap (width - commentMark.length) comment) = true) :
    fullLines (commentBlock width comment) =
      (lines (wrap (width - commentMark.length) comment)).map (commentMark ++ ·) := by
  obtain ⟨body, c, split, visible⟩ := exists_concat_of_closes closed
  have nonempty : wrap (width - commentMark.length) comment ≠ [] := by simp [split]
  have noNewline : c ≠ '\n' := by
    rintro rfl
    exact absurd visible (by decide)
  have unended : withoutFinalNewline (body ++ [c]) = body ++ [c] ∧
      finalNewline (body ++ [c]) = [] := by
    simp [withoutFinalNewline, finalNewline, noNewline]
  have inner := lines_leadAll (by decide : '\n' ∉ commentMark) (List.not_mem_nil (a := '\n'))
    (body ++ [c])
  rw [List.append_nil, List.nil_append] at inner
  rw [commentBlock_of_ne_nil nonempty, fullLines_newline, prefixLines_of_ne_nil _ nonempty, split,
    unended.1, unended.2, List.append_nil, inner]

/-- Text that ends in a line break is marked up to there, and a bare line follows. -/
theorem commentBlock_of_newline {width : Nat} {comment body : List Char}
    (split : wrap (width - commentMark.length) comment = body ++ ['\n']) :
    ∃ block, commentBlock width comment = block ++ ['\n'] ∧ block ≠ [] ∧ EndsLine block ∧
      fullLines block = (lines body).map (commentMark ++ ·) := by
  have nonempty : wrap (width - commentMark.length) comment ≠ [] := by simp [split]
  have whole : EndsLine (body ++ ['\n']) := endsLine_newline body
  have marked := fullLines_prefixLines (by decide : '\n' ∉ commentMark) whole
  rw [fullLines_newline] at marked
  refine ⟨_, commentBlock_of_ne_nil nonempty, ?_, ?_, by rw [split, marked]⟩
  · rw [prefixLines_of_ne_nil _ nonempty]
    simp [commentMark]
  · rw [split]
    exact (isRemark_prefixLines whole).endsLine

/-- Each line of a block is a wrapped line behind the comment mark, or bare. -/
theorem mem_fullLines_commentBlock {width : Nat} {comment line : List Char}
    (listed : line ∈ fullLines (commentBlock width comment)) :
    line = [] ∨ ∃ printed ∈ lines (wrap (width - commentMark.length) comment),
      line = commentMark ++ printed := by
  rcases wrap_cases (width - commentMark.length) comment with
    ⟨_, body, split⟩ | ⟨_, empty | closed⟩
  · obtain ⟨block, same, _, ends, marked⟩ := commentBlock_of_newline split
    rw [same, fullLines_append ends, List.mem_append, marked] at listed
    rcases listed with inside | bare
    · obtain ⟨printed, member, rfl⟩ := List.mem_map.mp inside
      refine .inr ⟨printed, ?_, rfl⟩
      rw [split, lines_append_newline]
      exact List.mem_append_left _ member
    · exact .inl (List.mem_singleton.mp bare)
  · rw [commentBlock_eq_nil_iff.mpr empty] at listed
    cases listed
  · rw [fullLines_commentBlock closed] at listed
    obtain ⟨printed, member, rfl⟩ := List.mem_map.mp listed
    exact .inr ⟨printed, member, rfl⟩

/-- A comment has no block exactly if it is a single line with nothing to show. Its block consists
of comment lines exactly if the comment is not broken at its end; where it is, a bare line follows
the comment lines. -/
theorem commentBlock_marked (width : Nat) (comment : List Char) :
    (commentBlock width comment = [] ↔ '\n' ∉ comment ∧ AllBlank comment) ∧
      (IsCommentLines (commentBlock width comment) ↔ ¬ EndsBroken comment) ∧
      (EndsBroken comment ↔ ∃ block, block ≠ [] ∧ IsCommentLines block ∧
        commentBlock width comment = block ++ ['\n']) := by
  refine ⟨commentBlock_eq_nil_iff.trans wrap_eq_nil_iff, ?_⟩
  have marked : ∀ printed : List (List Char),
      ∀ line ∈ printed.map (commentMark ++ ·), commentMark <+: line :=
    fun printed => List.forall_mem_map.mpr fun line _ => List.prefix_append _ _
  rcases wrap_cases (width - commentMark.length) comment with ⟨broken, body, split⟩ | ⟨whole, rest⟩
  · obtain ⟨block, same, nonempty, ends, found⟩ := commentBlock_of_newline split
    have comments : IsCommentLines block := ⟨ends, found ▸ marked _⟩
    rw [same]
    exact ⟨iff_of_false (not_isCommentLines_newline ends) (not_not_intro broken),
      iff_of_true broken ⟨block, nonempty, comments, rfl⟩⟩
  · have comments : IsCommentLines (commentBlock width comment) := by
      rcases rest with empty | closed
      · rw [commentBlock_eq_nil_iff.mpr empty]
        exact isCommentLines_nil
      · exact ⟨(isRemark_commentBlock width comment).endsLine,
          fullLines_commentBlock closed ▸ marked _⟩
    refine ⟨iff_of_true comments whole, iff_of_false whole ?_⟩
    rintro ⟨block, _, front, same⟩
    exact not_isCommentLines_newline front.endsLine (same ▸ comments)

/-- A line break at the end of a comment leaves a bare line behind its block. -/
theorem finalBreak_bare :
    commentBlock 60 "stop\n".toList = "// stop\n\n".toList ∧
      ¬ ∀ (width : Nat) (comment : List Char), IsCommentLines (commentBlock width comment) := by
  have bare : commentBlock 60 "stop\n".toList = "// stop\n\n".toList := by decide +kernel
  refine ⟨bare, fun marked => ?_⟩
  have last := (marked 60 "stop\n".toList).marked [] (by rw [bare]; decide +kernel)
  exact absurd last (by decide)

end BlockVerilog.Text
