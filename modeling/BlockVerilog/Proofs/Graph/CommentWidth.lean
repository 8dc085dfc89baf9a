import BlockVerilog.Proofs.Graph.Notes
import BlockVerilog.Proofs.Graph.Uncommented
import BlockVerilog.Proofs.Text.CommentLines

/-!
The width of the comment lines in front of a node.

The node's own comment is wrapped to the comment width; the comments below it are marked line by
line as they stand. So the lines of the former always keep the width, and those of the latter do
where the comments themselves were narrow enough.
-/

namespace BlockVerilog

namespace Text

/-- A comment line keeps within a width, or has a single word to show. -/
def KeepsWidth (width : Nat) (line : List Char) : Prop :=
  line.length ≤ width ∨ ∃ word, IsVisible word ∧ line = commentMark ++ word

/-- Behind the comment mark a line has room, or is a single word. -/
theorem keepsWidth_mark {width : Nat} {line : List Char} :
    KeepsWidth width (commentMark ++ line) ↔
      commentMark.length + line.length ≤ width ∨ IsVisible line := by
  rw [KeepsWidth, List.length_append]
  refine or_congr_right ⟨?_, fun visible => ⟨line, visible, rfl⟩⟩
  rintro ⟨word, visible, same⟩
  rwa [List.append_cancel_left same]

/-- A wrapped line keeps within the limit, or is a single word. -/
theorem length_of_mem_lines_wrap {limit : Nat} {text printed : List Char}
    (listed : printed ∈ lines (wrap limit text)) :
    printed.length ≤ max limit 1 ∨ IsVisible printed := by
  rw [lines_wrap] at listed
  obtain ⟨_, _, line, laidOut, member, rfl⟩ := exists_printed listed
  rcases laidOut.filled with rfl | ⟨_, filled⟩
  · obtain rfl : line = [] := List.mem_singleton.mp member
    exact .inl (Nat.zero_le _)
  · refine (filled.fits line member).imp_right ?_
    rintro ⟨word, rfl⟩
    rw [joinWords_singleton]
    exact laidOut.visible member word List.mem_cons_self

/-- The block of a comment keeps the width that it was wrapped to. -/
theorem keepsWidth_commentBlock {width : Nat} (wide : 4 ≤ width) {comment line : List Char}
    (listed : line ∈ fullLines (commentBlock width comment)) : KeepsWidth width line := by
  rcases mem_fullLines_commentBlock listed with rfl | ⟨printed, member, rfl⟩
  · exact .inl (Nat.zero_le _)
  · have mark : commentMark.length = 3 := rfl
    rw [keepsWidth_mark, mark]
    rw [mark] at member
    refine (length_of_mem_lines_wrap member).imp_left fun short => ?_
    omega

/-- The width of whole lines. -/
theorem forall_keepsWidth_iff {width : Nat} {text : List Char} (ends : EndsLine text) :
    (∀ line ∈ lines text, KeepsWidth width line) ↔
      ∀ line ∈ fullLines text, KeepsWidth width line := by
  have bare : KeepsWidth width [] := .inl (Nat.zero_le _)
  rw [lines_of_endsLine ends, List.forall_mem_append, List.forall_mem_singleton]
  exact and_iff_left bare

theorem lines_unlines {ls : List (List Char)} (nonempty : ls ≠ []) :
    lines (unlines ls) = ls.flatMap lines := by
  induction ls with
  | nil => exact absurd rfl nonempty
  | cons line ls inductionHypothesis =>
      by_cases last : ls = []
      · rw [last, unlines, List.intercalate_singleton, List.flatMap_singleton]
      · rw [← List.singleton_append, unlines_append (List.cons_ne_nil line []) last,
          lines_append_newline, inductionHypothesis last, unlines, List.intercalate_singleton,
          List.flatMap_append, List.flatMap_singleton]

end Text

namespace Graph

open Relation Text

variable {g : Graph}

/-- A walk along value links that goes far enough meets what they lead to. -/
theorem mem_valueTree_iff (closed : g.Closed) (acyclic : g.Acyclic) {depth : Nat}
    {id met : NodeId} (enough : g.Suffices (depth, id)) :
    met ∈ g.valueTree depth id ↔ ReflTransGen g.LinksValue id met := by
  induction depth generalizing id with
  | zero => exact absurd enough.pos (Nat.lt_irrefl 0)
  | succ depth inductionHypothesis =>
      have below : ∀ child, g.LinksValue id child →
          (met ∈ g.valueTree depth child ↔ ReflTransGen g.LinksValue child met) := fun child link =>
        inductionHypothesis (enough.of_links closed acyclic link.links)
      rw [valueTree, List.mem_cons, List.mem_flatMap, ReflTransGen.cases_head_iff]
      refine or_congr eq_comm (exists_congr fun child => ?_)
      rw [mem_valueTargets]
      exact and_congr_right (below child)

theorem fullLines_nestedComments (id : NodeId) :
    fullLines (g.nestedComments id) =
      (g.notes g.size id).flatMap fun note => lines note.toList := by
  rw [nestedComments_eq]
  cases found : g.notes g.size id with
  | nil => rfl
  | cons note notes =>
      rw [layNotes, fullLines_newline, lines_unlines (by simp), List.flatMap_map]
      exact List.cons_ne_nil note notes

/-- The lines in front of a node: those of its own block, then the lines of the comments below it,
each behind the comment mark. -/
theorem fullLines_commentsBefore (width : Nat) (id : NodeId) :
    fullLines (g.commentsBefore width id) =
      ((g.comment? id).map fun comment => fullLines (commentBlock width comment.toList)).getD [] ++
        (((g.valueTargets id).flatMap (g.notes g.size)).flatMap fun note =>
          lines note.toList).map (commentMark ++ ·) := by
  have own : EndsLine (((g.comment? id).map fun comment =>
      commentBlock width comment.toList).getD []) := by
    cases g.comment? id with
    | none => exact endsLine_nil
    | some comment => exact (isRemark_commentBlock width comment.toList).endsLine
  have nested : ∀ child ∈ g.valueTargets id,
      EndsLine (prefixLines commentMark (g.nestedComments child)) := fun child _ =>
    (isRemark_prefixLines (g.endsLine_nestedComments child)).endsLine
  rw [commentsBefore, fullLines_append own, fullLines_flatMap nested]
  congr 1
  · cases g.comment? id <;> rfl
  · rw [List.flatMap_assoc, List.map_flatMap]
    refine List.flatMap_congr fun child _ => ?_
    rw [fullLines_prefixLines (by decide) (g.endsLine_nestedComments child),
      fullLines_nestedComments]

/-- The comments below a node are those that value links lead to. -/
theorem mem_notes_below_iff {roots : List NodeId} (formed : g.WellFormed roots) {id : NodeId}
    {note : String} :
    note ∈ (g.valueTargets id).flatMap (g.notes g.size) ↔
      ∃ below, TransGen g.LinksValue id below ∧ g.comment? below = some note := by
  have enough : ∀ child, g.LinksValue id child → g.Suffices (g.size, child) := fun child link =>
    ⟨formed.closed _ _ link.links, extent_le_size child⟩
  simp only [List.mem_flatMap, mem_valueTargets, notes, List.mem_filterMap]
  constructor
  · rintro ⟨child, link, below, met, found⟩
    rw [mem_valueTree_iff formed.closed formed.acyclic (enough child link)] at met
    exact ⟨below, TransGen.head' link met, found⟩
  · rintro ⟨below, path, found⟩
    obtain ⟨child, link, met⟩ := TransGen.head'_iff.mp path
    rw [← mem_valueTree_iff formed.closed formed.acyclic (enough child link)] at met
    exact ⟨child, link, below, met, found⟩

/-- The lines of a node's own comment keep the comment width. All lines in front of it do exactly
if every line of the comments below it leaves room for the comment mark, or is a single word. -/
theorem commentsBefore_keepsWidth {roots : List NodeId} (accepted : g.validate roots = .ok ())
    {width : Nat} (wide : 4 ≤ width) (id : NodeId) :
    (∀ comment, g.comment? id = some comment →
        ∀ line ∈ lines (commentBlock width comment.toList), KeepsWidth width line) ∧
      ((∀ line ∈ lines (g.commentsBefore width id), KeepsWidth width line) ↔
        ∀ below note, TransGen g.LinksValue id below → g.comment? below = some note →
          ∀ line ∈ lines note.toList,
            commentMark.length + line.length ≤ width ∨ IsVisible line) := by
  have formed := validate_eq_ok_iff.mp accepted
  have own : ∀ comment : String,
      ∀ line ∈ fullLines (commentBlock width comment.toList), KeepsWidth width line :=
    fun comment line => keepsWidth_commentBlock wide
  refine ⟨fun comment _ => ?_, ?_⟩
  · rw [forall_keepsWidth_iff (isRemark_commentBlock width comment.toList).endsLine]
    exact own comment
  · have ownLines : ∀ line ∈ ((g.comment? id).map fun comment =>
        fullLines (commentBlock width comment.toList)).getD [], KeepsWidth width line := by
      cases g.comment? id with
      | none => exact List.forall_mem_nil _
      | some comment => exact own comment
    rw [forall_keepsWidth_iff (g.isRemark_commentsBefore width id).endsLine,
      fullLines_commentsBefore, List.forall_mem_append, and_iff_right ownLines,
      List.forall_mem_map]
    simp only [keepsWidth_mark, List.forall_mem_flatMap, mem_notes_below_iff formed]
    constructor
    · intro narrow below note path found
      exact narrow note ⟨below, path, found⟩
    · rintro narrow note ⟨below, path, found⟩
      exact narrow below note path found

/-- An assignment of a bit with a comment. -/
def annotatedBit (comment : String) : Graph where
  nodes := #[
    { Node.blank "assign_block" .statement with
      comment := "drive the output"
      fields := .ofList [("var", .text "y")]
      values := .ofList [("NAME", some 1)] },
    { Node.blank "one" .expression with comment := comment }]
  vars := []

theorem annotatedBit_keepsWidth :
    ((annotatedBit "one two").validate [0] = .ok () ∧ 4 ≤ 10) ∧
      ∀ line ∈ lines ((annotatedBit "one two").commentsBefore 10 0), KeepsWidth 10 line := by
  have accepted : (annotatedBit "one two").validate [0] = .ok () := by cbv
  refine ⟨⟨accepted, by decide⟩, ?_⟩
  refine (commentsBefore_keepsWidth accepted (by decide) 0).2.mpr fun below note path found => ?_
  have below : note ∈ ["one two"] :=
    (mem_notes_below_iff (validate_eq_ok_iff.mp accepted)).mpr ⟨below, path, found⟩
  obtain rfl : note = "one two" := List.mem_singleton.mp below
  have one : lines "one two".toList = ["one two".toList] := by decide +kernel
  rw [one, List.forall_mem_singleton]
  exact .inl (by decide)

/-- The comment of an expression stays as wide as it was written. -/
theorem annotatedBit_too_wide :
    ¬ ∀ (g : Graph) (roots : List NodeId) (width : Nat) (id : NodeId), g.validate roots = .ok () →
      4 ≤ width → ∀ line ∈ lines (g.commentsBefore width id), KeepsWidth width line := by
  intro keeps
  have accepted : (annotatedBit "one two three").validate [0] = .ok () := by cbv
  have printed : (annotatedBit "one two three").commentsBefore 10 0 =
      "// drive\n// the\n// output\n// one two three\n".toList := by cbv
  have listed : commentMark ++ "one two three".toList ∈
      lines ((annotatedBit "one two three").commentsBefore 10 0) := by
    rw [printed]
    decide +kernel
  rcases keepsWidth_mark.mp (keeps _ [0] 10 0 accepted (by decide) _ listed) with short | visible
  · exact absurd short (by decide)
  · exact absurd (visible.2 ' ' (by decide)) (by decide)

end Graph

end BlockVerilog
