import Mathlib.Data.List.Find
import BlockVerilog.Proofs.Reading.Tree

/-!
Texts as tokens.

Names and literals are taken as long as they go, and so are symbols; blanks only part them. `Scans`
says what is taken off the front of a text, and is put together piece by piece.
-/

namespace BlockVerilog.Reading

/-- The tokens of expressions. -/
inductive Token where
  | word (word : Word)
  | edge (side : Edge)
  | sign (sign : Sign)
  /-- An operator between operands; the minus of a negative literal is the same token. -/
  | between (op : Infix)
  | opening
  | closing
  | openBrace
  | closeBrace
  | openBracket
  | closeBracket
  | comma
  | question
  | colon
  deriving DecidableEq

/-- The characters of an operator. -/
def Infix.spelling : Infix → List Char
  | equal => ['=', '=']
  | notEqual => ['!', '=']
  | less => ['<']
  | lessOrEqual => ['<', '=']
  | greater => ['>']
  | greaterOrEqual => ['>', '=']
  | caseEqual => ['=', '=', '=']
  | caseNotEqual => ['!', '=', '=']
  | logicAnd => ['&', '&']
  | logicOr => ['|', '|']
  | bitAnd => ['&']
  | bitOr => ['|']
  | bitXor => ['^']
  | bitXnor => ['~', '^']
  | add => ['+']
  | subtract => ['-']
  | multiply => ['*']
  | divide => ['/']
  | modulo => ['%']
  | shiftLeft => ['<', '<']
  | shiftRight => ['>', '>']

theorem Infix.toList_text (op : Infix) : op.text.toList = op.spelling := by
  cases op <;> rfl

/-- The symbols with their characters, the longer ones first. -/
def symbols : List (List Char × Token) :=
  let operators := [Infix.caseEqual, .caseNotEqual, .equal, .notEqual, .lessOrEqual,
    .greaterOrEqual, .shiftLeft, .shiftRight, .logicAnd, .logicOr, .bitXnor, .less, .greater,
    .bitAnd, .bitOr, .bitXor, .add, .subtract, .multiply, .divide, .modulo]
  operators.map (fun op => (op.spelling, .between op)) ++
    [(['!'], .sign .logical), (['~'], .sign .bitwise), (['('], .opening), ([')'], .closing),
      (['\x7b'], .openBrace), (['\x7d'], .closeBrace), (['['], .openBracket),
      ([']'], .closeBracket), ([','], .comma), (['?'], .question), ([':'], .colon)]

/-- The longest symbol in front of a text. -/
def symbol? (text : List Char) : Option (List Char × Token) :=
  symbols.find? fun entry => entry.1.isPrefixOf text

/-- The token of a run of word characters. -/
def ofRun (run : List Char) : Token :=
  if run = Edge.rising.text.toList then .edge .rising
  else if run = Edge.falling.text.toList then .edge .falling
  else .word (.ofText (String.ofList run))

/-- The tokens of a text, if it has no other characters. -/
def lex (text : List Char) : Option (List Token) :=
  match text with
  | [] => some []
  | c :: rest =>
      if c = ' ' then lex rest
      else if isAtomChar c then
        (lex (rest.dropWhile isAtomChar)).map (ofRun (c :: rest.takeWhile isAtomChar) :: ·)
      else
        match symbol? (c :: rest) with
        | none => none
        | some (spelling, token) => (lex (rest.drop (spelling.length - 1))).map (token :: ·)
termination_by text.length
decreasing_by
  · exact Nat.lt_succ_self _
  · exact Nat.lt_succ_of_le (List.dropWhile_sublist _).length_le
  · exact Nat.lt_succ_of_le (List.drop_sublist _ _).length_le

/-- These tokens are taken off the front of a text, and the rest is left. -/
def Scans (text : List Char) (tokens : List Token) (rest : List Char) : Prop :=
  lex text = (lex rest).map (tokens ++ ·)

namespace Scans

theorem trans {text middle rest : List Char} {first second : List Token}
    (front : Scans text first middle) (back : Scans middle second rest) :
    Scans text (first ++ second) rest := by
  unfold Scans at *
  rw [front, back, Option.map_map]
  congr 1
  funext tokens
  exact (List.append_assoc first second tokens).symm

theorem cons {text middle rest : List Char} {first : Token} {second : List Token}
    (front : Scans text [first] middle) (back : Scans middle second rest) :
    Scans text (first :: second) rest := front.trans back

theorem space (rest : List Char) : Scans (' ' :: rest) [] rest := by
  unfold Scans
  rw [lex]
  simp

theorem finish {text : List Char} {tokens : List Token} (scans : Scans text tokens []) :
    lex text = some tokens := by
  unfold Scans at scans
  rw [scans, lex]
  simp

end Scans

/-- A text that does not go on with a name or literal. -/
def Parted (rest : List Char) : Prop := ∀ c ∈ rest.head?, isAtomChar c = false

@[simp] theorem parted_nil : Parted [] := by simp [Parted]

@[simp] theorem parted_cons {c : Char} {rest : List Char} :
    Parted (c :: rest) ↔ isAtomChar c = false := by simp [Parted]

theorem takeWhile_run {run rest : List Char} (atoms : ∀ c ∈ run, isAtomChar c = true)
    (parted : Parted rest) :
    (run ++ rest).takeWhile isAtomChar = run ∧ (run ++ rest).dropWhile isAtomChar = rest := by
  rw [List.takeWhile_append_of_pos atoms, List.dropWhile_append_of_pos atoms]
  cases rest with
  | nil => simp
  | cons c rest => simp_all

theorem isAtomChar_space : isAtomChar ' ' = false := by decide

theorem scans_run {run rest : List Char} (nonempty : run ≠ [])
    (atoms : ∀ c ∈ run, isAtomChar c = true) (parted : Parted rest) :
    Scans (run ++ rest) [ofRun run] rest := by
  cases run with
  | nil => exact absurd rfl nonempty
  | cons first others =>
      rw [List.forall_mem_cons] at atoms
      obtain ⟨taken, left⟩ := takeWhile_run atoms.2 parted
      have noSpace : first ≠ ' ' := fun same => by
        rw [same, isAtomChar_space] at atoms
        exact Bool.noConfusion atoms.1
      unfold Scans
      rw [List.cons_append, lex, if_neg noSpace, if_pos atoms.1, taken, left]
      rfl

theorem ofRun_word (w : Word) : ofRun w.text.toList = .word w := by
  have spelled := w.spelled
  simp only [isWord, Bool.and_eq_true, decide_eq_true_eq] at spelled
  obtain ⟨⟨_, notRising⟩, notFalling⟩ := spelled
  unfold ofRun
  rw [if_neg notRising, if_neg notFalling, String.ofList_toList, Word.ofText, dif_pos w.spelled]

theorem scans_word (w : Word) {rest : List Char} (parted : Parted rest) :
    Scans (w.text.toList ++ rest) [.word w] rest := by
  rw [← ofRun_word]
  exact scans_run w.ne_nil (fun c => w.isAtomChar_of_mem) parted

theorem scans_edge (side : Edge) {rest : List Char} (parted : Parted rest) :
    Scans (side.text.toList ++ rest) [.edge side] rest := by
  have run : ofRun side.text.toList = .edge side := by cases side <;> decide
  rw [← run]
  refine scans_run ?_ ?_ parted
  · cases side <;> decide
  · rw [← List.all_eq_true]
    cases side <;> decide

/-- The characters that make a symbol longer. -/
def lengthening : List Char := ['=', '<', '>', '&', '|', '^']

/-- A text in front of which no symbol gets longer. -/
def Apart (rest : List Char) : Prop := ∀ c ∈ rest.head?, c ∉ lengthening

@[simp] theorem apart_nil : Apart [] := by simp [Apart]

@[simp] theorem apart_cons {c : Char} {rest : List Char} :
    Apart (c :: rest) ↔ c ∉ lengthening := by simp [Apart]

/-- Of the spelling of another symbol, nothing reaches into a text that is apart. -/
theorem isPrefixOf_append {other spelling rest : List Char} (nonempty : spelling ≠ [])
    (lengthens : ∀ c ∈ other.tail, c ∈ lengthening) (apart : Apart rest) :
    other.isPrefixOf (spelling ++ rest) = other.isPrefixOf spelling := by
  rw [Bool.eq_iff_iff, List.isPrefixOf_iff_prefix, List.isPrefixOf_iff_prefix]
  constructor
  · intro front
    rcases List.prefix_or_prefix_of_prefix front (List.prefix_append spelling rest) with
      short | ⟨more, rfl⟩
    · exact short
    · cases more with
      | nil => exact ⟨[], by simp⟩
      | cons c more =>
          obtain ⟨left, same⟩ := (List.prefix_append_right_inj spelling).mp front
          have member : c ∈ (spelling ++ c :: more).tail := by
            rw [List.tail_append_of_ne_nil nonempty]
            simp
          rw [← same] at apart
          exact absurd (lengthens c member) (apart c rfl)
  · intro front
    exact front.trans (List.prefix_append spelling rest)

theorem symbols_lengthen : ∀ entry ∈ symbols, ∀ c ∈ entry.1.tail, c ∈ lengthening := by
  have checked : symbols.all (fun entry => entry.1.tail.all (· ∈ lengthening)) = true := by decide
  simpa only [List.all_eq_true, decide_eq_true_eq] using checked

theorem symbols_nonempty : ∀ entry ∈ symbols, entry.1 ≠ [] := by decide

theorem symbols_first :
    ∀ entry ∈ symbols, ∀ c ∈ entry.1.head?, c ≠ ' ' ∧ isAtomChar c = false := by
  have checked : symbols.all
      (fun entry => entry.1.head?.all fun c => c ≠ ' ' && !isAtomChar c) = true := by decide
  simpa [List.all_eq_true, Option.all_eq_true] using checked

theorem symbol?_self : ∀ entry ∈ symbols, symbol? entry.1 = some entry := by decide

theorem symbol?_append {entry : List Char × Token} (known : entry ∈ symbols) {rest : List Char}
    (apart : Apart rest) : symbol? (entry.1 ++ rest) = some entry := by
  rw [← symbol?_self entry known]
  unfold symbol?
  refine List.find?_congr fun other listed => ?_
  exact isPrefixOf_append (symbols_nonempty entry known) (symbols_lengthen other listed) apart

/-- A symbol is one token, unless what follows makes it longer. -/
theorem scans_symbol {spelling : List Char} {token : Token} (known : (spelling, token) ∈ symbols)
    {rest : List Char} (apart : Apart rest) : Scans (spelling ++ rest) [token] rest := by
  have found := symbol?_append known apart
  have nonempty := symbols_nonempty _ known
  have first := symbols_first _ known
  cases spelling with
  | nil => exact absurd rfl nonempty
  | cons c others =>
      obtain ⟨noSpace, noAtom⟩ := first c rfl
      simp only [List.cons_append] at found
      unfold Scans
      rw [List.cons_append, lex, if_neg noSpace, if_neg (by simp [noAtom]), found]
      simp

theorem scans_mark (c : Char) (token : Token) (known : ([c], token) ∈ symbols) {rest : List Char}
    (apart : Apart rest) : Scans (c :: rest) [token] rest := scans_symbol known apart

theorem scans_between (op : Infix) {rest : List Char} (apart : Apart rest) :
    Scans (op.text.toList ++ rest) [.between op] rest := by
  rw [Infix.toList_text]
  refine scans_symbol ?_ apart
  cases op <;> decide

end BlockVerilog.Reading
