import BlockVerilog.Proofs.Reading.Grammar

/-!
The grammar reads a text in one way only.

A reader by recursive descent takes the longest phrase of a level off the front of a token list.
Whatever is a phrase is read by it, so that no token list stands for two trees.
-/

namespace BlockVerilog.Reading

open Infix

/-- What takes a phrase of a level off some tokens, and what goes on with a chain from what was
read of it. -/
structure Readers where
  phrase : Precedence → List Token → Option (Tree × List Token)
  chain : Precedence → Tree → List Token → Option (Tree × List Token)

namespace Readers

def atomic (below : Readers) : List Token → Option (Tree × List Token)
  | .word word :: rest => some (.atom word, rest)
  | .opening :: rest =>
      match below.phrase .none rest with
      | some (tree, .closing :: rest) => some (tree, rest)
      | _ => none
  | .openBrace :: rest =>
      match below.phrase .none rest with
      | some (first, .comma :: rest) =>
          match below.phrase .none rest with
          | some (second, .closeBrace :: rest) => some (.concat first second, rest)
          | _ => none
      | some (count, .openBrace :: rest) =>
          match below.phrase .none rest with
          | some (value, .closeBrace :: .closeBrace :: rest) =>
              some (.replicate count value, rest)
          | _ => none
      | _ => none
  | _ => none

def unary (below : Readers) : List Token → Option (Tree × List Token)
  | .between .subtract :: .word word :: rest => some (.minus word, rest)
  | .sign sign :: rest =>
      (below.phrase .unary rest).map fun result => (.negation sign result.1, result.2)
  | tokens => below.phrase .bracket tokens

def conditional (below : Readers) (tokens : List Token) : Option (Tree × List Token) :=
  match below.phrase .logicOr tokens with
  | some (condition, .question :: rest) =>
      match below.phrase .conditional rest with
      | some (yes, .colon :: rest) =>
          (below.phrase .conditional rest).map fun result =>
            (.ternary condition yes result.1, result.2)
      | _ => none
  | result => result

def edge (below : Readers) : List Token → Option (Tree × List Token)
  | .edge side :: rest =>
      (below.phrase .member rest).map fun result => (.edge side result.1, result.2)
  | tokens => below.phrase .conditional tokens

/-- Read a phrase out of phrases and chains. -/
def nextPhrase (below : Readers) (level : Precedence) (tokens : List Token) :
    Option (Tree × List Token) :=
  match level with
  | .atomic => below.atomic tokens
  | .unary => below.unary tokens
  | .conditional => below.conditional tokens
  | .none => below.edge tokens
  | level =>
      (below.phrase level.tighter tokens).bind fun result =>
        below.chain level result.1 result.2

/-- Go on with a chain by one operator. -/
def nextChain (below : Readers) (level : Precedence) (tree : Tree) (tokens : List Token) :
    Option (Tree × List Token) :=
  match tokens with
  | .between op :: rest =>
      if op.level = level then
        (below.phrase level.tighter rest).bind fun result =>
          below.chain level (.binary op tree result.1) result.2
      else some (tree, tokens)
  | .openBracket :: rest =>
      if level = .member then
        match below.phrase .none rest with
        | some (index, .closeBracket :: rest) => below.chain level (.select tree index) rest
        | _ => none
      else some (tree, tokens)
  | _ => some (tree, tokens)

end Readers

/-- The readers that nest at most so many steps. -/
def readers : Nat → Readers
  | 0 => ⟨fun _ _ => none, fun _ _ _ => none⟩
  | depth + 1 => ⟨(readers depth).nextPhrase, (readers depth).nextChain⟩

/-- It holds from some depth on. -/
def Ultimately (holds : Nat → Prop) : Prop := ∃ enough, ∀ depth, enough ≤ depth → holds depth

theorem Ultimately.of_forall {holds : Nat → Prop} (always : ∀ depth, holds (depth + 1)) :
    Ultimately holds := by
  refine ⟨1, fun depth deep => ?_⟩
  cases depth with
  | zero => omega
  | succ depth => exact always depth

theorem Ultimately.step {first holds : Nat → Prop} (before : Ultimately first)
    (next : ∀ depth, first depth → holds (depth + 1)) : Ultimately holds := by
  obtain ⟨enough, before⟩ := before
  refine ⟨enough + 1, fun depth deep => ?_⟩
  cases depth with
  | zero => omega
  | succ depth => exact next depth (before depth (by omega))

theorem Ultimately.and {first second : Nat → Prop} (front : Ultimately first)
    (back : Ultimately second) : Ultimately fun depth => first depth ∧ second depth := by
  obtain ⟨enough, front⟩ := front
  obtain ⟨alsoEnough, back⟩ := back
  exact ⟨max enough alsoEnough, fun depth deep =>
    ⟨front depth (by omega), back depth (by omega)⟩⟩

/-- A phrase is taken off some tokens, if the reader may nest deep enough. -/
def Reads (level : Precedence) (tokens : List Token) (tree : Tree) (rest : List Token) : Prop :=
  Ultimately fun depth => (readers depth).phrase level tokens = some (tree, rest)

/-- A chain is continued to a phrase, if the reader may nest deep enough. -/
def Extends (level : Precedence) (left : Tree) (tokens : List Token) (tree : Tree)
    (rest : List Token) : Prop :=
  Ultimately fun depth => (readers depth).chain level left tokens = some (tree, rest)

theorem Reads.unique {level : Precedence} {tokens rest left : List Token} {tree other : Tree}
    (reads : Reads level tokens tree rest) (again : Reads level tokens other left) :
    tree = other := by
  obtain ⟨enough, both⟩ := Ultimately.and reads again
  obtain ⟨first, second⟩ := both enough (Nat.le_refl enough)
  exact congrArg Prod.fst (Option.some.inj (first.symm.trans second))

section

variable {tokens middle rest : List Token} {tree : Tree}

theorem reads_atom (word : Word) (rest : List Token) :
    Reads .atomic (.word word :: rest) (.atom word) rest := .of_forall fun _ => rfl

theorem reads_parens (inner : Reads .none tokens tree (.closing :: rest)) :
    Reads .atomic (.opening :: tokens) tree rest := by
  apply inner.step
  intro depth reads
  change (readers depth).atomic (.opening :: tokens) = _
  simp [Readers.atomic, reads]

theorem reads_concat {first second : Tree} (front : Reads .none tokens first (.comma :: middle))
    (back : Reads .none middle second (.closeBrace :: rest)) :
    Reads .atomic (.openBrace :: tokens) (.concat first second) rest := by
  apply (front.and back).step
  rintro depth ⟨reads, readsOn⟩
  change (readers depth).atomic (.openBrace :: tokens) = _
  simp [Readers.atomic, reads, readsOn]

theorem reads_replicate {count value : Tree}
    (front : Reads .none tokens count (.openBrace :: middle))
    (back : Reads .none middle value (.closeBrace :: .closeBrace :: rest)) :
    Reads .atomic (.openBrace :: tokens) (.replicate count value) rest := by
  apply (front.and back).step
  rintro depth ⟨reads, readsOn⟩
  change (readers depth).atomic (.openBrace :: tokens) = _
  simp [Readers.atomic, reads, readsOn]

theorem reads_minus (word : Word) (rest : List Token) :
    Reads .unary (.between .subtract :: .word word :: rest) (.minus word) rest :=
  .of_forall fun _ => rfl

theorem reads_negation (sign : Sign) (inner : Reads .unary tokens tree rest) :
    Reads .unary (.sign sign :: tokens) (.negation sign tree) rest := by
  apply inner.step
  intro depth reads
  change (readers depth).unary (.sign sign :: tokens) = _
  simp [Readers.unary, reads]

theorem reads_ternary {condition yes no : Tree} {right : List Token}
    (front : Reads .logicOr tokens condition (.question :: middle))
    (branch : Reads .conditional middle yes (.colon :: right))
    (back : Reads .conditional right no rest) :
    Reads .conditional tokens (.ternary condition yes no) rest := by
  apply ((front.and branch).and back).step
  rintro depth ⟨⟨reads, readsYes⟩, readsNo⟩
  change (readers depth).conditional tokens = _
  simp [Readers.conditional, reads, readsYes, readsNo]

theorem reads_edge (side : Edge) (inner : Reads .member tokens tree rest) :
    Reads .none (.edge side :: tokens) (.edge side tree) rest := by
  apply inner.step
  intro depth reads
  change (readers depth).edge (.edge side :: tokens) = _
  simp [Readers.edge, reads]

theorem extends_binary {op : Infix} {left right : Tree}
    (operand : Reads op.level.tighter tokens right middle)
    (goesOn : Extends op.level (.binary op left right) middle tree rest) :
    Extends op.level left (.between op :: tokens) tree rest := by
  apply (operand.and goesOn).step
  rintro depth ⟨reads, continues⟩
  change (readers depth).nextChain op.level left (.between op :: tokens) = _
  simp [Readers.nextChain, reads, continues]

theorem extends_select {left index : Tree}
    (inner : Reads .none tokens index (.closeBracket :: middle))
    (goesOn : Extends .member (.select left index) middle tree rest) :
    Extends .member left (.openBracket :: tokens) tree rest := by
  apply (inner.and goesOn).step
  rintro depth ⟨reads, continues⟩
  change (readers depth).nextChain .member left (.openBracket :: tokens) = _
  simp [Readers.nextChain, reads, continues]

end

/-- The level of the phrases that a token continues. -/
def Token.continues? : Token → Option Precedence
  | between op => some op.level
  | openBracket => some .member
  | question => some .conditional
  | _ => none

/-- The level of the phrases that a token begins. -/
def Token.begins? : Token → Option Precedence
  | word _ | opening | openBrace => some .atomic
  | sign _ | between .subtract => some .unary
  | edge _ => some .none
  | _ => none

/-- No phrase of a level goes on with these tokens. -/
def Stops (level : Precedence) (rest : List Token) : Prop :=
  ∀ token ∈ rest.head?, ∀ binding, token.continues? = some binding → level < binding

theorem stops_nil (level : Precedence) : Stops level [] := by simp [Stops]

theorem stops_cons {level : Precedence} {token : Token} {rest : List Token} :
    Stops level (token :: rest) ↔ ∀ binding, token.continues? = some binding → level < binding := by
  simp [Stops]

theorem Stops.tighter {level : Precedence} {rest : List Token} (stops : Stops level rest) :
    Stops level.tighter rest := by
  intro token first binding continues
  have above := Precedence.lt_iff_index_lt.mp (stops token first binding continues)
  rw [Precedence.lt_iff_index_lt, Precedence.index_tighter]
  omega

theorem extends_of_stops {level : Precedence} {rest : List Token} (tree : Tree)
    (stops : Stops level rest) : Extends level tree rest tree rest := by
  apply Ultimately.of_forall
  intro depth
  change (readers depth).nextChain level tree rest = _
  cases rest with
  | nil => rfl
  | cons token rest =>
      rw [stops_cons] at stops
      cases token with
      | between op =>
          have above := stops op.level rfl
          have other : op.level ≠ level := fun same => by
            rw [same, Precedence.lt_iff_index_lt] at above
            omega
          simp [Readers.nextChain, other]
      | openBracket =>
          have above := stops .member rfl
          have other : level ≠ .member := fun same => by
            rw [same, Precedence.lt_iff_index_lt] at above
            omega
          simp [Readers.nextChain, other]
      | _ => rfl

/-- A phrase begins with a token that may begin one of its level. -/
theorem Phrase.begins {level : Precedence} {tokens : List Token} {tree : Tree}
    (phrase : Phrase level tokens tree) :
    ∃ token rest binding, tokens = token :: rest ∧ token.begins? = some binding ∧
      binding ≤ level := by
  induction phrase with
  | atom word => exact ⟨_, _, _, rfl, rfl, by decide⟩
  | parens _ _ => exact ⟨_, _, _, rfl, rfl, by decide⟩
  | concat _ _ _ _ => exact ⟨_, _, _, rfl, rfl, by decide⟩
  | replicate _ _ _ _ => exact ⟨_, _, _, rfl, rfl, by decide⟩
  | minus word => exact ⟨_, _, _, rfl, rfl, by decide⟩
  | negation sign _ _ => exact ⟨_, _, _, rfl, rfl, by decide⟩
  | edge side _ _ => exact ⟨_, _, _, rfl, rfl, by decide⟩
  | select _ _ inductionHypothesis _ =>
      obtain ⟨token, rest, binding, rfl, begins, binds⟩ := inductionHypothesis
      exact ⟨token, _, binding, rfl, begins, binds⟩
  | binary op _ _ inductionHypothesis _ =>
      obtain ⟨token, rest, binding, rfl, begins, binds⟩ := inductionHypothesis
      exact ⟨token, _, binding, rfl, begins, binds⟩
  | ternary _ _ _ inductionHypothesis _ _ =>
      obtain ⟨token, rest, binding, rfl, begins, binds⟩ := inductionHypothesis
      refine ⟨token, _, binding, rfl, begins, ?_⟩
      exact Precedence.le_iff_index_le.mpr (Nat.le_succ_of_le binds)
  | looser _ inductionHypothesis =>
      obtain ⟨token, rest, binding, rfl, begins, binds⟩ := inductionHypothesis
      refine ⟨token, rest, binding, rfl, begins, ?_⟩
      rw [Precedence.le_iff_index_le, Precedence.index_tighter] at binds
      exact Precedence.le_iff_index_le.mpr (by omega)

section

variable {level : Precedence} {tokens rest middle : List Token} {tree left : Tree}

/-- At the levels without forms of their own, a phrase is a chain that a tighter one begins. -/
theorem reads_chain (plain : level ≠ .atomic ∧ level ≠ .unary ∧ level ≠ .conditional ∧
    level ≠ .none) (front : Reads level.tighter tokens left middle)
    (goesOn : Extends level left middle tree rest) : Reads level tokens tree rest := by
  apply (front.and goesOn).step
  rintro depth ⟨reads, continues⟩
  change (readers depth).nextPhrase level tokens = _
  cases level <;> simp_all [Readers.nextPhrase]

theorem reads_unary (front : Reads .bracket tokens tree rest)
    (begins : ∀ token ∈ tokens.head?, token.begins? ≠ some .unary) :
    Reads .unary tokens tree rest := by
  apply front.step
  intro depth reads
  change (readers depth).unary tokens = _
  cases tokens with
  | nil => simpa [Readers.unary] using reads
  | cons token tokens =>
      have other := begins token rfl
      cases token with
      | sign sign => exact absurd rfl other
      | between op =>
          cases op <;> first | exact absurd rfl other | simpa [Readers.unary] using reads
      | _ => simpa [Readers.unary] using reads

theorem reads_conditional (front : Reads .logicOr tokens tree rest)
    (stops : Stops .conditional rest) : Reads .conditional tokens tree rest := by
  apply front.step
  intro depth reads
  change (readers depth).conditional tokens = _
  cases rest with
  | nil => simp [Readers.conditional, reads]
  | cons token rest =>
      cases token with
      | question => exact absurd (stops_cons.mp stops .conditional rfl) (by decide)
      | _ => simp [Readers.conditional, reads]

theorem reads_none (front : Reads .conditional tokens tree rest)
    (begins : ∀ token ∈ tokens.head?, token.begins? ≠ some .none) :
    Reads .none tokens tree rest := by
  apply front.step
  intro depth reads
  change (readers depth).edge tokens = _
  cases tokens with
  | nil => simpa [Readers.edge] using reads
  | cons token tokens =>
      cases token with
      | edge side => exact absurd rfl (begins (.edge side) rfl)
      | _ => simpa [Readers.edge] using reads

end

/-- The levels whose phrases are chains from the left. -/
def isChainLevel (level : Precedence) : Bool := level = .member || isLevel level

/-- A phrase is read off the front of a token list, and chains are read on from it. -/
structure IsRead (level : Precedence) (tokens : List Token) (tree : Tree) : Prop where
  stops : ∀ rest, Stops level rest → Reads level (tokens ++ rest) tree rest
  goesOn : isChainLevel level = true → ∀ rest whole left, Stops level.tighter rest →
    Extends level tree rest whole left → Reads level (tokens ++ rest) whole left

namespace IsRead

variable {level : Precedence} {tokens : List Token} {tree : Tree}

theorem of_stops (noChain : isChainLevel level = false)
    (stops : ∀ rest, Stops level rest → Reads level (tokens ++ rest) tree rest) :
    IsRead level tokens tree :=
  ⟨stops, fun chain => by rw [noChain] at chain; cases chain⟩

/-- A chain that stops is one that goes on with nothing. -/
theorem of_goesOn (goesOn : ∀ rest whole left, Stops level.tighter rest →
      Extends level tree rest whole left → Reads level (tokens ++ rest) whole left) :
    IsRead level tokens tree :=
  ⟨fun rest stops => goesOn rest tree rest stops.tighter (extends_of_stops tree stops),
    fun _ => goesOn⟩

end IsRead

theorem tighter_lt_level (op : Infix) : op.level.tighter < op.level := by
  cases op <;> decide

theorem isChainLevel_level (op : Infix) : isChainLevel op.level = true := by
  simp [isChainLevel]

theorem not_begins_of_le {level binding : Precedence} (binds : binding ≤ level) {other : Precedence}
    (looser : level < other) : some binding ≠ some other := by
  intro same
  obtain rfl := Option.some.inj same
  rw [Precedence.le_iff_index_le] at binds
  rw [Precedence.lt_iff_index_lt] at looser
  omega

theorem Phrase.head_begins {level : Precedence} {tokens : List Token} {tree : Tree}
    (phrase : Phrase level tokens tree) (rest : List Token) {other : Precedence}
    (looser : level < other) :
    ∀ token ∈ (tokens ++ rest).head?, token.begins? ≠ some other := by
  obtain ⟨first, more, binding, rfl, begins, binds⟩ := phrase.begins
  intro token head
  obtain rfl := Option.some.inj head
  rw [begins]
  exact not_begins_of_le binds looser

/-- What is a phrase of the next tighter level is read at a level too. -/
theorem IsRead.looser {level : Precedence} {tokens : List Token} {tree : Tree}
    (phrase : Phrase level.tighter tokens tree) (isRead : IsRead level.tighter tokens tree) :
    IsRead level tokens tree := by
  by_cases plain : level ≠ .atomic ∧ level ≠ .unary ∧ level ≠ .conditional ∧ level ≠ .none
  · apply IsRead.of_goesOn
    intro rest whole left stops goesOn
    exact reads_chain plain (isRead.stops rest stops) goesOn
  · have special : level = .atomic ∨ level = .unary ∨ level = .conditional ∨ level = .none := by
      by_contra others
      push Not at others
      exact plain others
    rcases special with rfl | rfl | rfl | rfl
    · exact isRead
    · apply IsRead.of_stops rfl
      intro rest stops
      exact reads_unary (isRead.stops rest stops.tighter) (phrase.head_begins rest (by decide))
    · apply IsRead.of_stops rfl
      intro rest stops
      exact reads_conditional (isRead.stops rest stops.tighter) stops
    · apply IsRead.of_stops rfl
      intro rest stops
      exact reads_none (isRead.stops rest stops.tighter) (phrase.head_begins rest (by decide))

theorem Phrase.isRead {level : Precedence} {tokens : List Token} {tree : Tree}
    (phrase : Phrase level tokens tree) : IsRead level tokens tree := by
  have stopsAt : ∀ (level : Precedence) (token : Token) (rest : List Token),
      token.continues? = none → Stops level (token :: rest) := by
    intro level token rest never
    rw [stops_cons, never]
    simp
  induction phrase with
  | atom word => exact .of_stops rfl fun rest _ => reads_atom word rest
  | parens _ inner =>
      apply IsRead.of_stops rfl
      intro rest _
      simp only [List.cons_append, List.append_assoc, List.nil_append]
      exact reads_parens (inner.stops _ (stopsAt _ _ _ rfl))
  | concat _ _ front back =>
      apply IsRead.of_stops rfl
      intro rest _
      simp only [List.cons_append, List.append_assoc, List.nil_append]
      exact reads_concat (front.stops _ (stopsAt _ _ _ rfl)) (back.stops _ (stopsAt _ _ _ rfl))
  | replicate _ _ front back =>
      apply IsRead.of_stops rfl
      intro rest _
      simp only [List.cons_append, List.append_assoc, List.nil_append]
      exact reads_replicate (front.stops _ (stopsAt _ _ _ rfl))
        (back.stops _ (stopsAt _ _ _ rfl))
  | select _ _ front back =>
      apply IsRead.of_goesOn
      intro rest whole left _ goesOn
      simp only [List.cons_append, List.append_assoc, List.nil_append]
      refine front.goesOn rfl _ _ _ ?_
        (extends_select (back.stops _ (stopsAt _ _ _ rfl)) goesOn)
      rw [stops_cons]
      rintro binding ⟨⟩
      decide
  | minus word => exact .of_stops rfl fun rest _ => reads_minus word rest
  | negation sign _ inner =>
      exact .of_stops rfl fun rest stops => reads_negation sign (inner.stops rest stops)
  | binary op _ _ front back =>
      apply IsRead.of_goesOn
      intro rest whole left stops goesOn
      simp only [List.cons_append, List.append_assoc]
      refine front.goesOn (isChainLevel_level op) _ _ _ ?_
        (extends_binary (back.stops rest stops) goesOn)
      rw [stops_cons]
      rintro binding ⟨⟩
      exact tighter_lt_level op
  | ternary _ _ _ front branch back =>
      apply IsRead.of_stops rfl
      intro rest stops
      simp only [List.cons_append, List.append_assoc]
      refine reads_ternary (front.stops _ ?_) (branch.stops _ (stopsAt _ _ _ rfl))
        (back.stops rest stops)
      rw [stops_cons]
      rintro binding ⟨⟩
      decide
  | edge side _ inner =>
      refine .of_stops rfl fun rest stops => reads_edge side (inner.stops rest ?_)
      intro token first binding continues
      have above := stops token first binding continues
      exact Precedence.lt_iff_index_lt.mpr (Nat.lt_trans (by decide) above)
  | looser phrase inner => exact .looser phrase inner

/-- A token list is a phrase of a level in one way only. -/
theorem Phrase.unique {level : Precedence} {tokens : List Token} {tree other : Tree}
    (phrase : Phrase level tokens tree) (again : Phrase level tokens other) : tree = other :=
  (phrase.isRead.stops [] (stops_nil level)).unique (again.isRead.stops [] (stops_nil level))

namespace Tree

/-- The tokens of a printed tree stand for the regrouped tree, and for no other. -/
theorem phrase_tokens_iff (tree other : Tree) :
    Phrase .none tree.tokens other ↔ other = tree.regrouped := by
  constructor
  · exact fun phrase => phrase.unique tree.phrase_tokens
  · rintro rfl
    exact tree.phrase_tokens

end Tree

end BlockVerilog.Reading
