import BlockVerilog.Proofs.Reading.Token

/-!
The tokens of printed trees.

A printed tree is scanned as its tokens, whatever follows it, as long as no name or literal at its
end goes on.
-/

namespace BlockVerilog.Reading

/-- Tokens of an expression in a place that requires a level. -/
def enclose (tokens : List Token) (level required : Precedence) : List Token :=
  if level.needsParens required then .opening :: tokens ++ [.closing] else tokens

namespace Tree

/-- The tokens that a tree is printed with. -/
def tokens : Tree → List Token
  | atom word => [.word word]
  | minus word => [.between .subtract, .word word]
  | negation sign operand => .sign sign :: enclose operand.tokens operand.level .unary
  | binary op left right =>
      enclose left.tokens left.level op.level ++
        .between op :: enclose right.tokens right.level op.right
  | ternary condition yes no =>
      enclose condition.tokens condition.level .logicOr ++
        .question :: (enclose yes.tokens yes.level .conditional ++
          .colon :: enclose no.tokens no.level .conditional)
  | edge side signal => .edge side :: enclose signal.tokens signal.level .member
  | select signal index =>
      enclose signal.tokens signal.level .member ++
        .openBracket :: (enclose index.tokens index.level .none ++ [.closeBracket])
  | concat first second =>
      .openBrace :: (enclose first.tokens first.level .none ++
        .comma :: (enclose second.tokens second.level .none ++ [.closeBrace]))
  | replicate count value =>
      .openBrace :: (enclose count.tokens count.level .atomic ++
        .openBrace :: (enclose value.tokens value.level .none ++ [.closeBrace, .closeBrace]))

/-- The tokens of a tree in a place that requires a level. -/
def tokensWithin (tree : Tree) (required : Precedence) : List Token :=
  enclose tree.tokens tree.level required

theorem atomic_le (level : Precedence) : Precedence.atomic ≤ level :=
  Precedence.le_iff_index_le.mpr (Nat.zero_le _)

theorem le_none (level : Precedence) : level ≤ Precedence.none := by
  cases level <;> decide

theorem within_of_le {tree : Tree} {required : Precedence} (bare : tree.level ≤ required) :
    tree.within required = tree.text ∧ tree.tokensWithin required = tree.tokens := by
  have noParens := Precedence.needsParens_eq_false_iff.mpr bare
  simp [within, tokensWithin, parenthesize, enclose, noParens]

theorem within_of_not_le {tree : Tree} {required : Precedence} (loose : ¬ tree.level ≤ required) :
    tree.within required = "(" ++ tree.text ++ ")" ∧
      tree.tokensWithin required = .opening :: tree.tokens ++ [.closing] := by
  have parens : tree.level.needsParens required = true := by
    rwa [← Bool.not_eq_false, Precedence.needsParens_eq_false_iff]
  simp [within, tokensWithin, parenthesize, enclose, parens]

end Tree

theorem apart_append {text rest : List Char} (nonempty : text ≠ []) :
    Apart (text ++ rest) ↔ Apart text := by
  cases text with
  | nil => exact absurd rfl nonempty
  | cons c others => simp

theorem isAtomChar_lengthening : ∀ c ∈ lengthening, isAtomChar c = false := by
  have checked : lengthening.all (fun c => !isAtomChar c) = true := by decide
  simpa only [List.all_eq_true, Bool.not_eq_true'] using checked

theorem Word.apart (w : Word) : Apart w.text.toList := by
  intro c first long
  have atom := w.isAtomChar_of_mem (List.mem_of_mem_head? first)
  rw [isAtomChar_lengthening c long] at atom
  cases atom

namespace Tree

theorem toList_text_ne_nil (tree : Tree) : tree.text.toList ≠ [] := fun empty =>
  tree.text_ne_empty (String.toList_inj.mp empty)

theorem apart_within_of {tree : Tree} (inner : Apart tree.text.toList) (required : Precedence)
    (rest : List Char) : Apart ((tree.within required).toList ++ rest) := by
  by_cases bare : tree.level ≤ required
  · rw [(within_of_le bare).1, apart_append tree.toList_text_ne_nil]
    exact inner
  · rw [(within_of_not_le bare).1]
    simp [lengthening]

/-- No symbol in front of a printed tree gets longer by it. -/
theorem apart_text (tree : Tree) : Apart tree.text.toList := by
  induction tree with
  | atom word => exact word.apart
  | minus word => simp [text, lengthening]
  | negation sign _ _ => cases sign <;> simp [text, Sign.text, lengthening]
  | binary op left right first _ =>
      simpa [text, within] using apart_within_of first op.level _
  | ternary condition _ _ first _ _ =>
      simpa [text, within] using apart_within_of first .logicOr _
  | edge side _ _ => cases side <;> simp [text, Edge.text, lengthening]
  | select signal _ first _ => simpa [text, within] using apart_within_of first .member _
  | concat _ _ _ _ => simp [text, lengthening]
  | replicate _ _ _ _ => simp [text, lengthening]

theorem apart_within (tree : Tree) (required : Precedence) (rest : List Char) :
    Apart ((tree.within required).toList ++ rest) := apart_within_of tree.apart_text required rest

/-- A text that neither a name nor a symbol goes on with. -/
def Ends (rest : List Char) : Prop := Parted rest ∧ Apart rest

theorem ends_nil : Ends [] := ⟨parted_nil, apart_nil⟩

theorem ends_cons (c : Char) (parts : isAtomChar c = false ∧ c ∉ lengthening) (rest : List Char) :
    Ends (c :: rest) := ⟨parted_cons.mpr parts.1, apart_cons.mpr parts.2⟩

/-- A tree is scanned as its tokens. -/
def IsScanned (tree : Tree) : Prop :=
  ∀ rest, Ends rest → Scans (tree.text.toList ++ rest) tree.tokens rest

/-- In parentheses where they are asked for, a tree is scanned like itself. -/
theorem scans_within {tree : Tree} (scanned : tree.IsScanned) (required : Precedence)
    {rest : List Char} (ends : Ends rest) :
    Scans ((tree.within required).toList ++ rest) (tree.tokensWithin required) rest := by
  by_cases bare : tree.level ≤ required
  · obtain ⟨text, tokens⟩ := within_of_le bare
    rw [text, tokens]
    exact scanned rest ends
  · obtain ⟨text, tokens⟩ := within_of_not_le bare
    rw [text, tokens]
    simp only [String.toList_append, List.append_assoc]
    have front : Apart (tree.text.toList ++ ')' :: rest) :=
      (apart_append tree.toList_text_ne_nil).mpr tree.apart_text
    have body := scanned (')' :: rest) (ends_cons ')' (by decide) rest)
    exact (scans_mark '(' .opening (by decide) front).cons
      (body.trans (scans_mark ')' .closing (by decide) ends.2))

theorem scans_spaced (op : Infix) (rest : List Char) :
    Scans (' ' :: (op.text.toList ++ ' ' :: rest)) [.between op] rest := by
  have front := scans_between op (apart_cons.mpr (by decide) : Apart (' ' :: rest))
  exact (Scans.space _).trans (front.trans (Scans.space rest))

theorem scans_mark_spaced (c : Char) (token : Token) (known : ([c], token) ∈ symbols)
    (rest : List Char) : Scans (c :: ' ' :: rest) [token] rest :=
  (scans_mark c token known (apart_cons.mpr (by decide))).trans (Scans.space rest)

/-- A mark between blanks. -/
theorem scans_mark_between (c : Char) (token : Token) (known : ([c], token) ∈ symbols)
    (rest : List Char) : Scans (' ' :: c :: ' ' :: rest) [token] rest :=
  (Scans.space _).trans (scans_mark_spaced c token known rest)

theorem isScanned (tree : Tree) : tree.IsScanned := by
  induction tree with
  | atom word => exact fun rest ends => scans_word word ends.1
  | minus word =>
      intro rest ends
      have literal := scans_word word ends.1
      have front : Apart (word.text.toList ++ rest) := (apart_append word.ne_nil).mpr word.apart
      simp only [text, String.toList_append, List.append_assoc]
      exact (scans_mark '-' (.between .subtract) (by decide) front).cons literal
  | negation sign operand inner =>
      intro rest ends
      have body := scans_within inner .unary ends
      have front := operand.apart_within .unary rest
      simp only [text, String.toList_append, List.append_assoc]
      cases sign with
      | logical => exact (scans_mark '!' (.sign .logical) (by decide) front).cons body
      | bitwise => exact (scans_mark '~' (.sign .bitwise) (by decide) front).cons body
  | binary op left right first second =>
      intro rest ends
      have last := scans_within second op.right ends
      have middle := scans_spaced op ((right.within op.right).toList ++ rest)
      have front := fun more => scans_within first op.level (ends_cons ' ' (by decide) more)
      simp only [text, String.toList_append, List.append_assoc]
      exact (front _).trans (middle.cons last)
  | ternary condition yes no first second third =>
      intro rest ends
      have last := scans_within third .conditional ends
      have front := fun more => scans_within first .logicOr (ends_cons ' ' (by decide) more)
      have middle := fun more => scans_within second .conditional (ends_cons ' ' (by decide) more)
      simp only [text, String.toList_append, List.append_assoc]
      exact (front _).trans ((scans_mark_between '?' .question (by decide) _).cons
        ((middle _).trans ((scans_mark_between ':' .colon (by decide) _).cons last)))
  | edge side signal inner =>
      intro rest ends
      have body := scans_within inner .member ends
      have keyword : Scans (side.text.toList ++ ' ' :: ((signal.within .member).toList ++ rest))
          [.edge side] (' ' :: ((signal.within .member).toList ++ rest)) :=
        scans_edge side (parted_cons.mpr isAtomChar_space)
      simp only [text, String.toList_append, List.append_assoc]
      exact keyword.cons ((Scans.space _).trans body)
  | select signal index first second =>
      intro rest ends
      have closed := scans_mark ']' .closeBracket (by decide) ends.2
      have inside := scans_within second .none (ends_cons ']' (by decide) rest)
      have front := fun more => scans_within first .member (ends_cons '[' (by decide) more)
      simp only [text, String.toList_append, List.append_assoc]
      exact (front _).trans ((scans_mark '[' .openBracket (by decide)
        (index.apart_within .none _)).cons (inside.trans closed))
  | concat first second left right =>
      intro rest ends
      have closed := scans_mark '\x7d' .closeBrace (by decide) ends.2
      have back := scans_within right .none (ends_cons '\x7d' (by decide) rest)
      have front := fun more => scans_within left .none (ends_cons ',' (by decide) more)
      simp only [text, String.toList_append, List.append_assoc]
      exact (scans_mark '\x7b' .openBrace (by decide) (first.apart_within .none _)).cons
        ((front _).trans ((scans_mark_spaced ',' .comma (by decide) _).cons (back.trans closed)))
  | replicate count value times body =>
      intro rest ends
      have closed := scans_mark '\x7d' .closeBrace (by decide) ends.2
      have closes := (scans_mark '\x7d' .closeBrace (by decide)
        (apart_cons.mpr (by decide))).cons closed
      have back := fun more => scans_within body .none (ends_cons '\x7d' (by decide) more)
      have front := fun more => scans_within times .atomic (ends_cons '\x7b' (by decide) more)
      simp only [text, String.toList_append, List.append_assoc]
      exact (scans_mark '\x7b' .openBrace (by decide) (count.apart_within .atomic _)).cons
        ((front _).trans ((scans_mark '\x7b' .openBrace (by decide)
          (value.apart_within .none _)).cons ((back _).trans closes)))

theorem lex_text (tree : Tree) : lex tree.text.toList = some tree.tokens := by
  have scans := tree.isScanned [] ends_nil
  rw [List.append_nil] at scans
  exact scans.finish

end Tree

end BlockVerilog.Reading
