import Mathlib.Data.List.Forall2
import BlockVerilog.Proofs.Text.CodeLines

/-!
Texts with the same code in different layouts.

Comments and indentation differ inside of bodies only, and bodies are whole lines. What is put
together around them is interchangeable: in every text one may stand for the other. Blocks also
begin and end visibly, so that the last cleanup finds nothing to cut off them.
-/

namespace BlockVerilog.Text

theorem opens_cons (c : Char) (rest : List Char) : opens (c :: rest) = !isBlank c := rfl

/-- A text that begins and ends visibly. -/
def solid (text : String) : Bool := opens text.toList && closes text.toList

theorem solid_append {first second : String} (opened : opens first.toList = true)
    (closed : closes second.toList = true) : solid (first ++ second) = true := by
  rw [solid, String.toList_append, opens_append opened, closes_append closed]
  rfl

theorem opens_of_solid {text : String} (visible : solid text = true) :
    opens text.toList = true := (Bool.and_eq_true _ _ ▸ visible).1

theorem closes_of_solid {text : String} (visible : solid text = true) :
    closes text.toList = true := (Bool.and_eq_true _ _ ▸ visible).2

theorem getLast?_toList_append {last : String} {c : Char}
    (ended : last.toList.getLast? = some c) (front : String) :
    (front ++ last).toList.getLast? = some c := by
  rw [String.toList_append, List.getLast?_append, ended]
  rfl

/-- In every text, one may stand in the place of the other. -/
def Interchangeable (first second : String) : Prop :=
  ∀ before after : List Char,
    codeLines (before ++ first.toList ++ after) = codeLines (before ++ second.toList ++ after)

namespace Interchangeable

theorem refl (text : String) : Interchangeable text text := fun _ _ => rfl

theorem append {first second firstNext secondNext : String} (same : Interchangeable first second)
    (sameNext : Interchangeable firstNext secondNext) :
    Interchangeable (first ++ firstNext) (second ++ secondNext) := by
  intro before after
  have left := same before (firstNext.toList ++ after)
  have right := sameNext (before ++ second.toList) after
  simp only [String.toList_append, List.append_assoc] at left right ⊢
  rw [left, right]

theorem codeLines_eq {first second : String} (same : Interchangeable first second) :
    codeLines first.toList = codeLines second.toList := by
  simpa using same [] []

end Interchangeable

/-- Whole lines, the last of which ends visibly. -/
def IsBody (text : String) : Prop := text = "" ∨ ClosesLine text.toList

theorem IsBody.endsLine {text : String} (body : IsBody text) : EndsLine text.toList := by
  rcases body with rfl | closed
  · exact endsLine_nil
  · exact closed.endsLine

/-- Bodies with the same code. -/
structure SameBody (first second : String) : Prop where
  codeLines_eq : codeLines first.toList = codeLines second.toList
  first : IsBody first
  second : IsBody second

theorem sameBody_empty : SameBody "" "" := ⟨rfl, .inl rfl, .inl rfl⟩

/-- Behind a line that opens them, bodies with the same code are interchangeable. -/
theorem Interchangeable.body {first second firstBody secondBody : String}
    (same : Interchangeable first second) (opened : second.toList.getLast? = some '\n')
    (bodies : SameBody firstBody secondBody) :
    Interchangeable (first ++ firstBody) (second ++ secondBody) := by
  refine fun before after => (same.append (.refl firstBody) before after).trans ?_
  obtain ⟨line, ended⟩ := List.getLast?_eq_some_iff.mp opened
  have front : EndsLine (before ++ second.toList) := by
    rw [ended, ← List.append_assoc]
    exact endsLine_newline _
  have regroup : ∀ body : String, before ++ (second ++ body).toList ++ after =
      (before ++ second.toList) ++ (body.toList ++ after) := by simp
  rw [regroup, regroup, codeLines_append front, codeLines_append front,
    codeLines_append bodies.first.endsLine, codeLines_append bodies.second.endsLine,
    bodies.codeLines_eq]

theorem closesLine_prefixLines {text : List Char} (closed : ClosesLine text) (lead : List Char) :
    ClosesLine (prefixLines lead text) := by
  obtain ⟨_, rfl, closed⟩ := closed
  obtain ⟨body, c, rfl, visible⟩ := exists_concat_of_closes closed
  have noNewline : c ≠ '\n' := fun newline => by
    rw [newline] at visible
    exact absurd visible (by decide)
  refine ⟨lead ++ leadAll lead body ++ [c], ?_, closes_append (by simp [closes, visible]) _⟩
  rw [prefixLines_of_ne_nil lead (by simp)]
  simp [withoutFinalNewline, finalNewline, leadAll, noNewline]

theorem IsBody.indentLines {text : String} (body : IsBody text) (lead : String) :
    IsBody (indentLines lead text) := by
  rcases body with rfl | closed
  · left
    simp [← String.toList_inj]
  · right
    rw [toList_indentLines]
    exact closesLine_prefixLines closed _

theorem SameBody.indentLines {first second lead : String} (same : SameBody first second)
    (blank : ∀ c ∈ lead.toList, isSpaceOrTab c = true) :
    SameBody (indentLines lead first) (indentLines "" second) where
  codeLines_eq := by
    rw [toList_indentLines, toList_indentLines, codeLines_indent blank, codeLines_indent (by simp)]
    exact same.codeLines_eq
  first := same.first.indentLines lead
  second := same.second.indentLines ""

/-- Whole lines that begin and end visibly. -/
structure IsBlock (text : String) : Prop where
  opens : opens text.toList = true
  closes : ClosesLine text.toList

theorem isBlock_append {first second : String} (opened : opens first.toList = true)
    (closed : ClosesLine second.toList) : IsBlock (first ++ second) where
  opens := by
    rw [String.toList_append]
    exact opens_append opened _
  closes := by
    rw [String.toList_append]
    exact closed.append _

/-- A block that ends in a line of its own. -/
theorem isBlock_of_closing {front closing : String} (opened : opens front.toList = true)
    (closed : closing.toList.getLast? = some '\n' ∧ Text.closes closing.toList.dropLast = true) :
    IsBlock (front ++ closing) := by
  obtain ⟨body, split⟩ := List.getLast?_eq_some_iff.mp closed.1
  exact isBlock_append opened ⟨body, split, by simpa [split] using closed.2⟩

theorem IsBlock.ne_empty {text : String} (block : IsBlock text) : text ≠ "" := by
  rintro rfl
  cases block.opens

/-- Blocks with the same code. -/
structure SameBlock (first second : String) : Prop where
  codeLines_eq : codeLines first.toList = codeLines second.toList
  first : IsBlock first
  second : IsBlock second

theorem IsBlock.refl {text : String} (block : IsBlock text) : SameBlock text text :=
  ⟨rfl, block, block⟩

theorem Interchangeable.sameBlock {first second : String} (same : Interchangeable first second)
    (firstBlock : IsBlock first) (secondBlock : IsBlock second) : SameBlock first second :=
  ⟨same.codeLines_eq, firstBlock, secondBlock⟩

/-- A statement around a body: a head of whole lines, and a closing line. -/
theorem SameBody.sameBlock {head closing body other : String} (same : SameBody body other)
    (opened : opens head.toList = true) (ended : head.toList.getLast? = some '\n')
    (closed : closing.toList.getLast? = some '\n' ∧ closes closing.toList.dropLast = true) :
    SameBlock (head ++ body ++ closing) (head ++ other ++ closing) := by
  have alike := ((Interchangeable.refl head).body ended same).append (.refl closing)
  have block : ∀ body : String, IsBlock (head ++ body ++ closing) := fun body =>
    isBlock_of_closing (by rw [String.toList_append]; exact opens_append opened _) closed
  exact alike.sameBlock (block body) (block other)

/-- Interchangeable parts of a statement, both of them empty or with visible ends. -/
structure SamePart (first second : String) : Prop where
  alike : Interchangeable first second
  closes : first = "" ∧ second = "" ∨ closes first.toList = true ∧ closes second.toList = true

theorem samePart_empty : SamePart "" "" := ⟨.refl "", .inl ⟨rfl, rfl⟩⟩

/-- A part made of a head of whole lines, a body and a visible end. -/
theorem SameBody.samePart {head closing body other : String} (same : SameBody body other)
    (ended : head.toList.getLast? = some '\n') (closed : Text.closes closing.toList = true) :
    SamePart (head ++ body ++ closing) (head ++ other ++ closing) where
  alike := ((Interchangeable.refl head).body ended same).append (.refl closing)
  closes := by
    simp only [String.toList_append]
    exact .inr ⟨closes_append closed _, closes_append closed _⟩

theorem SamePart.append {first second firstNext secondNext : String}
    (same : SamePart first second) (sameNext : SamePart firstNext secondNext) :
    SamePart (first ++ firstNext) (second ++ secondNext) where
  alike := same.alike.append sameNext.alike
  closes := by
    rcases sameNext.closes with ⟨rfl, rfl⟩ | closed
    · simpa using same.closes
    · rw [String.toList_append, String.toList_append]
      exact .inr ⟨closes_append closed.1 _, closes_append closed.2 _⟩

theorem isBlock_newline {text : String} (visible : solid text = true) : IsBlock (text ++ "\n") where
  opens := by
    rw [String.toList_append]
    exact opens_append (opens_of_solid visible) _
  closes := ⟨text.toList, by simp, closes_of_solid visible⟩

theorem SamePart.sameBlock {first second : String} (same : SamePart first second)
    (opened : opens first.toList = true ∧ opens second.toList = true) :
    SameBlock (first ++ "\n") (second ++ "\n") := by
  have closed : Text.closes first.toList = true ∧ Text.closes second.toList = true :=
    same.closes.resolve_left fun empty => by
      rw [empty.1] at opened
      cases opened.1
  have alike := same.alike.append (.refl "\n")
  exact alike.sameBlock (isBlock_newline (by rw [solid, opened.1, closed.1]; rfl))
    (isBlock_newline (by rw [solid, opened.2, closed.2]; rfl))

theorem SameBlock.sameBody {first second : String} (same : SameBlock first second) :
    SameBody first second := ⟨same.codeLines_eq, .inr same.first.closes, .inr same.second.closes⟩

theorem SameBlock.append {first second firstNext secondNext : String}
    (same : SameBlock first second) (sameNext : SameBlock firstNext secondNext) :
    SameBlock (first ++ firstNext) (second ++ secondNext) where
  codeLines_eq := by
    rw [String.toList_append, String.toList_append, codeLines_append same.first.closes.endsLine,
      codeLines_append same.second.closes.endsLine, same.codeLines_eq, sameNext.codeLines_eq]
  first := isBlock_append same.first.opens sameNext.first.closes
  second := isBlock_append same.second.opens sameNext.second.closes

/-- Two texts without any lines, or blocks with the same code. -/
def SameBlocks (first second : String) : Prop :=
  first = "" ∧ second = "" ∨ SameBlock first second

theorem SameBlocks.append {first second firstNext secondNext : String}
    (same : SameBlocks first second) (sameNext : SameBlocks firstNext secondNext) :
    SameBlocks (first ++ firstNext) (second ++ secondNext) := by
  rcases same with ⟨rfl, rfl⟩ | same
  · simpa using sameNext
  · rcases sameNext with ⟨rfl, rfl⟩ | sameNext
    · exact .inr (by simpa using same)
    · exact .inr (same.append sameNext)

theorem SameBlocks.sameBody {first second : String} (same : SameBlocks first second) :
    SameBody first second := by
  rcases same with ⟨rfl, rfl⟩ | same
  · exact sameBody_empty
  · exact same.sameBody

/-- Whole lines of comments. -/
structure IsRemark (text : List Char) : Prop where
  codeLines_eq : codeLines text = []
  endsLine : EndsLine text
  opens : text = [] ∨ Text.opens text = true

theorem isRemark_nil : IsRemark [] := ⟨rfl, endsLine_nil, .inl rfl⟩

theorem IsRemark.append {first second : List Char} (remark : IsRemark first)
    (remarkNext : IsRemark second) : IsRemark (first ++ second) where
  codeLines_eq := by
    rw [codeLines_append remark.endsLine, remark.codeLines_eq, remarkNext.codeLines_eq]
    rfl
  endsLine := remark.endsLine.append remarkNext.endsLine
  opens := by
    rcases remark.opens with rfl | opened
    · exact remarkNext.opens
    · exact .inr (opens_append opened second)

theorem isRemark_flatMap {α : Type} {elements : List α} {text : α → List Char}
    (remarks : ∀ a ∈ elements, IsRemark (text a)) : IsRemark (elements.flatMap text) := by
  induction elements with
  | nil => exact isRemark_nil
  | cons a elements inductionHypothesis =>
      rw [List.forall_mem_cons] at remarks
      rw [List.flatMap_cons]
      exact remarks.1.append (inductionHypothesis remarks.2)

theorem opens_prefixLines_commentMark {text : List Char} (nonempty : text ≠ []) :
    opens (prefixLines commentMark text) = true := by
  rw [prefixLines_of_ne_nil _ nonempty, List.append_assoc]
  exact opens_append (by decide) _

theorem isRemark_prefixLines {text : List Char} (ends : EndsLine text) :
    IsRemark (prefixLines commentMark text) := by
  rcases ends with rfl | ⟨body, rfl⟩
  · rw [prefixLines_nil]
    exact isRemark_nil
  · have nonempty : body ++ ['\n'] ≠ [] := by simp
    refine ⟨codeLines_comment _, ?_, .inr (opens_prefixLines_commentMark nonempty)⟩
    have newline : finalNewline (body ++ ['\n']) = ['\n'] := by simp [finalNewline]
    rw [prefixLines_of_ne_nil _ nonempty, newline]
    exact endsLine_newline _

theorem isRemark_commentBlock (width : Nat) (comment : List Char) :
    IsRemark (commentBlock width comment) := by
  unfold commentBlock
  split
  next => exact isRemark_nil
  next wrapped nonempty =>
    exact ⟨(codeLines_newline _).trans (codeLines_comment _), endsLine_newline _,
      .inr (opens_append (opens_prefixLines_commentMark nonempty) _)⟩

theorem SameBlock.remark {first second : String} {comments : List Char}
    (same : SameBlock first second) (remark : IsRemark comments) :
    SameBlock (String.ofList comments ++ first) second where
  codeLines_eq := by
    rw [String.toList_append, String.toList_ofList, codeLines_append remark.endsLine,
      remark.codeLines_eq, List.nil_append, same.codeLines_eq]
  first := by
    rcases remark.opens with rfl | opened
    · simpa using same.first
    · exact isBlock_append (by rwa [String.toList_ofList]) same.first.closes
  second := same.second

theorem SameBlock.apart {first second firstNext secondNext : String}
    (same : SameBlock first second) (sameNext : SameBlock firstNext secondNext) :
    SameBlock (first ++ "\n" ++ firstNext) (second ++ "\n" ++ secondNext) where
  codeLines_eq := by
    have newline : ∀ front back : String,
        (front ++ "\n" ++ back).toList = front.toList ++ '\n' :: back.toList := by simp
    rw [newline, newline, codeLines_append_newline, codeLines_append_newline, same.codeLines_eq,
      sameNext.codeLines_eq]
  first := by
    rw [String.append_assoc]
    exact isBlock_append same.first.opens (String.toList_append ▸ sameNext.first.closes.append _)
  second := by
    rw [String.append_assoc]
    exact isBlock_append same.second.opens (String.toList_append ▸ sameNext.second.closes.append _)

theorem SameBlock.intercalate {first second : String} {firstRest secondRest : List String}
    (same : SameBlock first second) (sameRest : List.Forall₂ SameBlock firstRest secondRest) :
    SameBlock ("\n".intercalate (first :: firstRest))
      ("\n".intercalate (second :: secondRest)) := by
  induction sameRest generalizing first second with
  | nil => rwa [String.intercalate_singleton, String.intercalate_singleton]
  | cons next rest inductionHypothesis =>
      rw [String.intercalate_cons_cons, String.intercalate_cons_cons]
      exact same.apart (inductionHypothesis next)

theorem sameBlocks_intercalate {first second : List String}
    (same : List.Forall₂ SameBlock first second) :
    SameBlocks ("\n".intercalate first) ("\n".intercalate second) := by
  cases same with
  | nil => exact .inl ⟨rfl, rfl⟩
  | cons front rest => exact .inr (front.intercalate rest)

end BlockVerilog.Text
