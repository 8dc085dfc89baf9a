import BlockVerilog.Proofs.Text.Layout

/-!
The last cleanup of blocks that stand one after the other.

Around blocks there is nothing to cut off, and of blanks at line ends each line loses its own. So
the cleanup goes through the newlines between blocks.
-/

namespace BlockVerilog.Text

theorem intercalate_append (separator : List Char) {first second : List (List Char)}
    (nonempty : first ≠ []) (nonemptyNext : second ≠ []) :
    separator.intercalate (first ++ second) =
      separator.intercalate first ++ separator ++ separator.intercalate second := by
  obtain ⟨next, rest, rfl⟩ := List.exists_cons_of_ne_nil nonemptyNext
  induction first with
  | nil => exact absurd rfl nonempty
  | cons line first inductionHypothesis =>
      cases first with
      | nil => simp
      | cons other first =>
          have later := inductionHypothesis (List.cons_ne_nil other first)
          simp only [List.cons_append, List.intercalate_cons_cons] at later ⊢
          rw [later]
          simp

theorem unlines_append {first second : List (List Char)} (nonempty : first ≠ [])
    (nonemptyNext : second ≠ []) :
    unlines (first ++ second) = unlines first ++ '\n' :: unlines second := by
  rw [unlines, intercalate_append ['\n'] nonempty nonemptyNext, List.append_assoc]
  rfl

/-- Lines with a newline behind each. -/
theorem unlines_newline {ls : List (List Char)} (nonempty : ls ≠ []) :
    unlines ls ++ ['\n'] = ls.flatMap (· ++ ['\n']) := by
  induction ls with
  | nil => exact absurd rfl nonempty
  | cons line ls inductionHypothesis =>
      by_cases last : ls = []
      · rw [last, unlines, List.intercalate_singleton, List.flatMap_singleton]
      · rw [← List.singleton_append, unlines_append (List.cons_ne_nil line []) last,
          List.flatMap_append, List.flatMap_singleton, ← inductionHypothesis last, unlines,
          List.intercalate_singleton]
        simp

theorem stripLineEnds_append_newline (first second : List Char) :
    stripLineEnds (first ++ '\n' :: second) =
      stripLineEnds first ++ '\n' :: stripLineEnds second := by
  have nonempty : ∀ text : List Char, (lines text).map (dropWhileEnd isSpaceOrTab) ≠ [] := by
    intro text none
    exact List.splitOn_ne_nil _ _ (List.map_eq_nil_iff.mp none)
  rw [stripLineEnds, lines_append_newline, List.map_append,
    unlines_append (nonempty first) (nonempty second)]
  rfl

/-- A text after the last cleanup. -/
def tidied (text : String) : String := String.ofList (tidy text.toList)

@[simp] theorem tidied_empty : tidied "" = "" := rfl

theorem IsBlock.toList_tidied {text : String} (block : IsBlock text) :
    (tidied text).toList = stripLineEnds text.toList := by
  have kept : dropLeadingLines text.toList = text.toList := dropLeadingLines_append block.opens []
  rw [tidied, String.toList_ofList, tidy, kept, collapseEnd_of_closesLine block.closes]

theorem IsBlock.apart {first second : String} (block : IsBlock first) (next : IsBlock second) :
    IsBlock (first ++ "\n" ++ second) := (block.refl.apart next.refl).first

theorem IsBlock.intercalate {text : String} {texts : List String} (block : IsBlock text)
    (blocks : ∀ other ∈ texts, IsBlock other) : IsBlock ("\n".intercalate (text :: texts)) := by
  induction texts generalizing text with
  | nil => rwa [String.intercalate_singleton]
  | cons next texts inductionHypothesis =>
      rw [List.forall_mem_cons] at blocks
      rw [String.intercalate_cons_cons]
      exact block.apart (inductionHypothesis blocks.1 blocks.2)

theorem IsBlock.tidied_ne_empty {text : String} (block : IsBlock text) : tidied text ≠ "" := by
  intro empty
  obtain ⟨body, split, _⟩ := block.closes
  have stripped : stripLineEnds text.toList = [] := by
    rw [← block.toList_tidied, empty]
    rfl
  rw [split, stripLineEnds_append_newline] at stripped
  simp at stripped

theorem IsBlock.tidied_apart {first second : String} (block : IsBlock first)
    (next : IsBlock second) :
    tidied (first ++ "\n" ++ second) = tidied first ++ "\n" ++ tidied second := by
  have newline : ∀ front back : String,
      (front ++ "\n" ++ back).toList = front.toList ++ '\n' :: back.toList := by simp
  rw [← String.toList_inj, (block.apart next).toList_tidied, newline, newline,
    stripLineEnds_append_newline, block.toList_tidied, next.toList_tidied]

/-- Blocks are cleaned up one by one. -/
theorem tidied_intercalate {texts : List String} (blocks : ∀ text ∈ texts, IsBlock text) :
    tidied ("\n".intercalate texts) = "\n".intercalate (texts.map tidied) := by
  cases texts with
  | nil => rfl
  | cons text texts =>
      induction texts generalizing text with
      | nil => rw [List.map_singleton, String.intercalate_singleton, String.intercalate_singleton]
      | cons next texts inductionHypothesis =>
          obtain ⟨block, later⟩ := List.forall_mem_cons.mp blocks
          obtain ⟨nextBlock, more⟩ := List.forall_mem_cons.mp later
          rw [String.intercalate_cons_cons, block.tidied_apart (nextBlock.intercalate more),
            inductionHypothesis next later, List.map_cons, List.map_cons, List.map_cons,
            String.intercalate_cons_cons]

/-- No lines, or a block. -/
def IsBlocks (text : String) : Prop := text = "" ∨ IsBlock text

theorem IsBlocks.append {first second : String} (blocks : IsBlocks first)
    (next : IsBlocks second) : IsBlocks (first ++ second) := by
  rcases blocks with rfl | block
  · rwa [String.empty_append]
  · rcases next with rfl | next
    · rw [String.append_empty]
      exact .inr block
    · exact .inr (isBlock_append block.opens next.closes)

theorem IsBlocks.isBody {text : String} (blocks : IsBlocks text) : IsBody text :=
  blocks.imp_right IsBlock.closes

theorem IsBlocks.tidied_eq_empty_iff {text : String} (blocks : IsBlocks text) :
    tidied text = "" ↔ text = "" := by
  rcases blocks with rfl | block
  · simp
  · simp [block.tidied_ne_empty, block.ne_empty]

/-- Texts are cleaned up one by one, and the empty ones are the same before and after. -/
theorem tidied_intercalate_nonempty {texts : List String} (blocks : ∀ text ∈ texts, IsBlocks text) :
    tidied ("\n".intercalate (texts.filter (· ≠ ""))) =
      "\n".intercalate ((texts.map tidied).filter (· ≠ "")) := by
  have nonempty : ∀ text ∈ texts.filter (· ≠ ""), IsBlock text := by
    intro text listed
    rw [List.mem_filter, decide_eq_true_eq] at listed
    exact (blocks text listed.1).resolve_left listed.2
  have same : (texts.map tidied).filter (· ≠ "") = (texts.filter (· ≠ "")).map tidied := by
    rw [List.filter_map]
    refine congrArg (List.map tidied) (List.filter_congr fun text listed => ?_)
    rw [Function.comp_apply, decide_eq_decide]
    exact not_congr (blocks text listed).tidied_eq_empty_iff
  rw [tidied_intercalate nonempty, same]

end BlockVerilog.Text
