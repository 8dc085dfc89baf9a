import BlockVerilog.Command.Options
import BlockVerilog.Proofs.Number.SizedLiteral
import BlockVerilog.Proofs.Text.CodeLines

/-!
The grammar of argument lists.

An argument list is a sequence of clauses, read from left to right: an `-o` with the argument behind
it, or an argument that makes a request by itself. The order of clauses counts among those of one
kind only.
-/

namespace BlockVerilog.Command

open Numeral Text

/-- One argument, or two of which the first one is `-o`. -/
inductive Clause where
  | output (path : String)
  | plain (asked : Request)
  deriving DecidableEq

/-- A text of words that commas divide. -/
inductive IsWordList : List String → String → Prop
  | mk (pieces : List String) (nonempty : pieces ≠ [])
      (apart : ∀ piece ∈ pieces, ',' ∉ piece.toList) :
      IsWordList ((pieces.map trimmed).filter (· ≠ "")) (",".intercalate pieces)

/-- A hyphen, or what does not begin with one. -/
def isDocument (argument : String) : Bool :=
  argument = "-" || argument.toList.head? ≠ some '-'

/-- The arguments that make a request. -/
inductive Request.Spells : Request → String → Prop
  | indent {numeral : String} {spaces : Nat} (plain : IsPlain numeral.toList spaces)
      (small : spaces < 2 ^ 64) : Spells (.indent spaces) ("--indent=" ++ numeral)
  | commentWrap {numeral : String} {width : Nat} (plain : IsPlain numeral.toList width)
      (small : width < 2 ^ 64) : Spells (.commentWrap width) ("--comment-wrap=" ++ numeral)
  | timescale {scale : String} (nonempty : scale ≠ "") :
      Spells (.timescale scale) ("--timescale=" ++ scale)
  | reserve {words : List String} {text : String} (listed : IsWordList words text) :
      Spells (.reserve words) ("--reserve=" ++ text)
  | checkOnly : Spells .checkOnly "--check"
  | document {path : String} (given : isDocument path = true) : Spells (.document path) path

/-- An argument list that consists of clauses. -/
inductive Spelled : List Clause → List String → Prop
  | nil : Spelled [] []
  | output {path : String} {clauses : List Clause} {arguments : List String}
      (rest : Spelled clauses arguments) :
      Spelled (.output path :: clauses) ("-o" :: path :: arguments)
  | plain {asked : Request} {argument : String} {clauses : List Clause} {arguments : List String}
      (spells : asked.Spells argument) (rest : Spelled clauses arguments) :
      Spelled (.plain asked :: clauses) (argument :: arguments)

/-! ### What clauses ask for -/

namespace Clause

def output? : Clause → Option String
  | .output path => some path
  | _ => none

def indent? : Clause → Option String
  | .plain (.indent spaces) => some (String.ofList (List.replicate spaces ' '))
  | _ => none

def commentWrap? : Clause → Option Nat
  | .plain (.commentWrap width) => some width
  | _ => none

def timescale? : Clause → Option String
  | .plain (.timescale scale) => some scale
  | _ => none

def reserved? : Clause → Option (List String)
  | .plain (.reserve words) => some words
  | _ => none

def document? : Clause → Option String
  | .plain (.document path) => some path
  | _ => none

/-- Which option a clause sets. -/
inductive Kind where
  | output
  | indent
  | commentWrap
  | timescale
  | reserve
  | checkOnly
  | document
  deriving DecidableEq

def kind : Clause → Kind
  | .output _ => .output
  | .plain (.indent _) => .indent
  | .plain (.commentWrap _) => .commentWrap
  | .plain (.timescale _) => .timescale
  | .plain (.reserve _) => .reserve
  | .plain .checkOnly => .checkOnly
  | .plain (.document _) => .document

/-- Clauses in another order, those of each kind in the same one. -/
def Rearranged (clauses others : List Clause) : Prop :=
  ∀ kind, clauses.filter (·.kind = kind) = others.filter (·.kind = kind)

/-- What the last clause says that sets an option. -/
def lastOf {α : Type} (value? : Clause → Option α) (clauses : List Clause) : Option α :=
  (clauses.filterMap value?).getLast?

def documents (clauses : List Clause) : List String := clauses.filterMap document?

/-- A configuration that clauses change. -/
def configure (config : Config) (clauses : List Clause) : Config where
  indent := (lastOf indent? clauses).getD config.indent
  commentWrap := (lastOf commentWrap? clauses).getD config.commentWrap
  timescale := (lastOf timescale? clauses).or config.timescale
  reserved := config.reserved ++ (clauses.filterMap reserved?).flatten

/-- The options that clauses ask for along with a document. -/
def options (clauses : List Clause) (input : String) : Options where
  input := input
  output := lastOf output? clauses
  config := configure .standard clauses
  checkOnly := decide (.plain .checkOnly ∈ clauses)

theorem lastOf_cons {α : Type} (value? : Clause → Option α) (clause : Clause)
    (later : List Clause) :
    lastOf value? (clause :: later) = (lastOf value? later).or (value? clause) := by
  unfold lastOf
  cases found : value? clause with
  | none => rw [List.filterMap_cons_none found, Option.or_none]
  | some value =>
      rw [List.filterMap_cons_some found, ← List.singleton_append, List.getLast?_append]
      rfl

theorem lastOf_nil {α : Type} (value? : Clause → Option α) : lastOf value? [] = none := rfl

theorem documents_cons (clause : Clause) (later : List Clause) :
    documents (clause :: later) = documents [clause] ++ documents later := by
  rw [← List.singleton_append, documents, List.filterMap_append, documents, documents]

end Clause

/-! ### Single arguments -/

theorem valueOf?_eq_some_iff {lead argument value : String} :
    valueOf? lead argument = some value ↔ argument = lead ++ value := by
  unfold valueOf?
  split
  next begins =>
    obtain ⟨rest, spelled⟩ := begins
    rw [← spelled, List.drop_left, Option.some.injEq, ← String.toList_inj, ← String.toList_inj,
      ← spelled, String.toList_ofList, String.toList_append, List.append_cancel_left_eq]
  next other =>
    refine ⟨nofun, fun same => absurd ?_ other⟩
    rw [same, String.toList_append]
    exact List.prefix_append ..

/-- Leads of which neither begins with the other lead different arguments. -/
theorem valueOf?_append_of_apart {lead other : String} (apart : ¬ lead.toList <+: other.toList)
    (apartBack : ¬ other.toList <+: lead.toList) (value : String) :
    valueOf? lead (other ++ value) = none := by
  rw [valueOf?, if_neg]
  intro begins
  rw [String.toList_append] at begins
  rcases List.prefix_or_prefix_of_prefix begins (List.prefix_append ..) with held | held
  · exact apart held
  · exact apartBack held

theorem isPrefix_of_valueOf? {lead argument value : String}
    (held : valueOf? lead argument = some value) : lead.toList <+: argument.toList := by
  unfold valueOf? at held
  split at held
  next behind => exact behind
  next => cases held

/-- What begins like an option with a value is no document. -/
theorem isDocument_of_isPrefix {lead argument : String} (begins : lead.toList <+: argument.toList)
    (hyphens : ['-', '-'] <+: lead.toList) : isDocument argument = false := by
  obtain ⟨rest, spelled⟩ := hyphens.trans begins
  have longer : argument ≠ "-" := by
    rintro rfl
    simp at spelled
  simp [isDocument, longer, ← spelled]

theorem valueOf?_of_isDocument {lead path : String} (given : isDocument path = true)
    (hyphens : ['-', '-'] <+: lead.toList) : valueOf? lead path = none := by
  cases held : valueOf? lead path with
  | none => rfl
  | some value =>
      have other := isDocument_of_isPrefix (isPrefix_of_valueOf? held) hyphens
      exact absurd given (Bool.eq_false_iff.mp other)

theorem isDocument_iff {argument : String} :
    isDocument argument = true ↔ ¬ (argument.toList.head? = some '-' ∧ argument ≠ "-") := by
  simp only [isDocument, Bool.or_eq_true, decide_eq_true_eq]
  tauto

theorem count_eq_ok_iff {option value : String} {n : Nat} :
    count option value = .ok n ↔ IsPlain value.toList n ∧ n < 2 ^ 64 := by
  rw [← Nat.pow_eq, ← parseNat_eq_some_iff, count]
  split
  next m found => simp [found]
  next none => simp [none]

theorem count_map_eq_ok_iff {option value : String} {make : Nat → Request} {asked : Request} :
    (count option value).map make = .ok asked ↔
      ∃ n, IsPlain value.toList n ∧ n < 2 ^ 64 ∧ make n = asked := by
  simp only [← and_assoc, ← @count_eq_ok_iff option]
  cases count option value <;> simp [Except.map]

theorem isWordList_wordList (text : String) : IsWordList (wordList text) text := by
  have apart : ∀ piece ∈ (text.toList.splitOn ',').map String.ofList, ',' ∉ piece.toList := by
    intro piece listed
    obtain ⟨letters, member, rfl⟩ := List.mem_map.mp listed
    rw [String.toList_ofList]
    exact not_mem_of_mem_splitOn member
  have joined := IsWordList.mk _ (mt List.map_eq_nil_iff.mp (List.splitOn_ne_nil _ _)) apart
  have whole : ",".intercalate ((text.toList.splitOn ',').map String.ofList) = text := by
    rw [← String.toList_inj, String.toList_intercalate, List.map_map]
    have same : String.toList ∘ String.ofList = id := funext fun _ => String.toList_ofList
    rw [same, List.map_id]
    exact List.intercalate_splitOn ','
  have words : wordList text =
      (((text.toList.splitOn ',').map String.ofList).map trimmed).filter (· ≠ "") := by
    simp [wordList, trimmed, Function.comp_def]
  rw [words]
  rwa [whole] at joined

theorem IsWordList.wordList_eq {words : List String} {text : String}
    (listed : IsWordList words text) : wordList text = words := by
  obtain ⟨pieces, nonempty, apart⟩ := listed
  have cut : (",".intercalate pieces).toList.splitOn ',' = pieces.map String.toList := by
    rw [String.toList_intercalate]
    refine List.splitOn_intercalate ',' ?_ (mt List.map_eq_nil_iff.mp nonempty)
    exact List.forall_mem_map.mpr apart
  rw [wordList, cut, List.map_map]
  rfl

theorem spells_of_request {argument : String} {asked : Request}
    (made : request argument = .ok asked) : asked.Spells argument := by
  unfold request at made
  split at made
  next value held =>
    obtain rfl := valueOf?_eq_some_iff.mp held
    obtain ⟨n, plain, small, rfl⟩ := count_map_eq_ok_iff.mp made
    exact .indent plain small
  next =>
    split at made
    next value held =>
      obtain rfl := valueOf?_eq_some_iff.mp held
      obtain ⟨n, plain, small, rfl⟩ := count_map_eq_ok_iff.mp made
      exact .commentWrap plain small
    next =>
      split at made
      next scale held =>
        obtain rfl := valueOf?_eq_some_iff.mp held
        split at made
        next => cases made
        next nonempty =>
          cases made
          exact .timescale nonempty
      next =>
        split at made
        next text held =>
          obtain rfl := valueOf?_eq_some_iff.mp held
          cases made
          exact .reserve (isWordList_wordList text)
        next =>
          split at made
          next same =>
            cases made
            exact same ▸ .checkOnly
          next =>
            split at made
            next => cases made
            next given =>
              cases made
              exact .document (isDocument_iff.mpr given)

theorem Request.Spells.request_eq {argument : String} {asked : Request}
    (spells : asked.Spells argument) : request argument = .ok asked := by
  unfold request
  cases spells with
  | indent plain small =>
      rw [valueOf?_eq_some_iff.mpr rfl]
      exact count_map_eq_ok_iff.mpr ⟨_, plain, small, rfl⟩
  | commentWrap plain small =>
      rw [valueOf?_append_of_apart (by decide) (by decide), valueOf?_eq_some_iff.mpr rfl]
      exact count_map_eq_ok_iff.mpr ⟨_, plain, small, rfl⟩
  | timescale nonempty =>
      rw [valueOf?_append_of_apart (by decide) (by decide),
        valueOf?_append_of_apart (by decide) (by decide), valueOf?_eq_some_iff.mpr rfl]
      exact if_neg nonempty
  | reserve listed =>
      rw [valueOf?_append_of_apart (by decide) (by decide),
        valueOf?_append_of_apart (by decide) (by decide),
        valueOf?_append_of_apart (by decide) (by decide), valueOf?_eq_some_iff.mpr rfl]
      exact congrArg (Except.ok ∘ Request.reserve) listed.wordList_eq
  | checkOnly => rfl
  | document given =>
      have noCheck : argument ≠ "--check" := by
        rintro rfl
        exact absurd given (by decide)
      rw [valueOf?_of_isDocument given (by decide), valueOf?_of_isDocument given (by decide),
        valueOf?_of_isDocument given (by decide), valueOf?_of_isDocument given (by decide)]
      simp only [if_neg noCheck]
      exact if_neg (isDocument_iff.mp given)

theorem request_eq_ok_iff {argument : String} {asked : Request} :
    request argument = .ok asked ↔ asked.Spells argument :=
  ⟨spells_of_request, fun spells => spells.request_eq⟩

/-! ### Argument lists -/

theorem spelled_nil_iff {clauses : List Clause} : Spelled clauses [] ↔ clauses = [] := by
  constructor
  · intro spelled
    cases spelled
    rfl
  · rintro rfl
    exact .nil

theorem Request.Spells.ne_output {argument : String} {asked : Request}
    (spells : asked.Spells argument) : argument ≠ "-o" := by
  rintro rfl
  have unknown : request "-o" = .error (.unknownOption "-o") := by rfl
  cases unknown.symm.trans spells.request_eq

theorem spelled_output_iff {clauses : List Clause} {path : String} {rest : List String} :
    Spelled clauses ("-o" :: path :: rest) ↔
      ∃ later, Spelled later rest ∧ .output path :: later = clauses := by
  constructor
  · intro spelled
    cases spelled with
    | output later => exact ⟨_, later, rfl⟩
    | plain spells => exact absurd rfl spells.ne_output
  · rintro ⟨later, spelled, rfl⟩
    exact .output spelled

theorem not_spelled_output {clauses : List Clause} : ¬ Spelled clauses ["-o"] := by
  intro spelled
  cases spelled with
  | plain spells => exact spells.ne_output rfl

theorem spelled_cons_iff {clauses : List Clause} {argument : String} {rest : List String}
    (plain : argument ≠ "-o") :
    Spelled clauses (argument :: rest) ↔ ∃ asked later, asked.Spells argument ∧
      Spelled later rest ∧ .plain asked :: later = clauses := by
  constructor
  · intro spelled
    cases spelled with
    | output => exact absurd rfl plain
    | plain spells later => exact ⟨_, _, spells, later, rfl⟩
  · rintro ⟨asked, later, spells, spelled, rfl⟩
    exact .plain spells spelled

/-- The clauses of an argument list are determined. -/
theorem Spelled.unique {clauses others : List Clause} {arguments : List String}
    (spelled : Spelled clauses arguments) (again : Spelled others arguments) :
    clauses = others := by
  induction spelled generalizing others with
  | nil => exact (spelled_nil_iff.mp again).symm
  | output rest inductionHypothesis =>
      obtain ⟨later, spelledLater, rfl⟩ := spelled_output_iff.mp again
      rw [inductionHypothesis spelledLater]
  | plain spells rest inductionHypothesis =>
      obtain ⟨asked, later, spellsAgain, spelledLater, rfl⟩ :=
        (spelled_cons_iff spells.ne_output).mp again
      obtain rfl := Except.ok.inj (spells.request_eq.symm.trans spellsAgain.request_eq)
      rw [inductionHypothesis spelledLater]

namespace Draft

open Clause

variable {draft next result : Draft} {clause : Clause} {clauses later : List Clause}

/-- A draft that clauses have changed. -/
def after (draft : Draft) (clauses : List Clause) : Draft where
  input := draft.input.or (documents clauses).head?
  output := (lastOf output? clauses).or draft.output
  config := configure draft.config clauses
  checkOnly := draft.checkOnly || decide (.plain .checkOnly ∈ clauses)

/-- With the documents that clauses name there is one at most. -/
def HasRoom (draft : Draft) (clauses : List Clause) : Prop :=
  draft.input = none ∧ (documents clauses).length ≤ 1 ∨ documents clauses = []

theorem after_nil (draft : Draft) : draft.after [] = draft := by
  simp [after, configure, lastOf_nil, documents]

theorem after_cons (draft : Draft) (clause : Clause) (later : List Clause) :
    draft.after (clause :: later) = (draft.after [clause]).after later := by
  have inputs : (documents (clause :: later)).head? =
      (documents [clause]).head?.or (documents later).head? := by
    rw [documents_cons, List.head?_append]
  have reserved : ((clause :: later).filterMap reserved?).flatten =
      ([clause].filterMap reserved?).flatten ++ (later.filterMap reserved?).flatten := by
    rw [← List.flatten_append, ← List.filterMap_append, List.singleton_append]
  simp only [after, configure, inputs, reserved, lastOf_cons, lastOf_nil, Option.none_or,
    Option.or_assoc, Option.getD_or, List.append_assoc, List.mem_cons, List.not_mem_nil, or_false,
    Bool.decide_or, Bool.or_assoc]

theorem hasRoom_cons :
    draft.HasRoom (clause :: later) ↔
      draft.HasRoom [clause] ∧ (draft.after [clause]).HasRoom later := by
  rw [HasRoom, HasRoom, HasRoom, after, documents_cons]
  cases named : documents [clause] with
  | nil => simp
  | cons path others => simp [and_assoc]

/-- Where a draft gets to with clauses, if they name no document too many. -/
def Reaches (draft : Draft) (clauses : List Clause) (result : Draft) : Prop :=
  draft.HasRoom clauses ∧ draft.after clauses = result

theorem reaches_nil_iff : draft.Reaches [] result ↔ draft = result := by
  simp [Reaches, HasRoom, documents, after_nil]

/-- Clauses are taken in one after the other. -/
theorem reaches_cons_iff :
    draft.Reaches (clause :: later) result ↔
      ∃ next, draft.Reaches [clause] next ∧ next.Reaches later result := by
  rw [Reaches, hasRoom_cons, after_cons draft clause later]
  constructor
  · rintro ⟨⟨room, roomLater⟩, reached⟩
    exact ⟨draft.after [clause], ⟨room, rfl⟩, roomLater, reached⟩
  · rintro ⟨_, ⟨room, rfl⟩, roomLater, reached⟩
    exact ⟨⟨room, roomLater⟩, reached⟩

theorem reaches_output_iff {path : String} :
    draft.Reaches [.output path] next ↔ { draft with output := some path } = next := by
  simp [Reaches, HasRoom, after, configure, documents, lastOf, List.filterMap_cons, document?,
    output?, indent?, commentWrap?, timescale?, reserved?]

theorem take_eq_ok_iff {asked : Request} :
    draft.take asked = .ok next ↔ draft.Reaches [.plain asked] next := by
  cases asked with
  | document path =>
      cases named : draft.input <;>
        simp [take, named, Reaches, HasRoom, after, configure, documents, lastOf,
          List.filterMap_cons, document?, output?, indent?, commentWrap?, timescale?, reserved?]
  | _ =>
      simp [take, Reaches, HasRoom, after, configure, documents, lastOf, List.filterMap_cons,
        document?, output?, indent?, commentWrap?, timescale?, reserved?]

/-- The drafts that a draft gets to with the clauses of an argument list. -/
def Accepts (draft : Draft) (arguments : List String) (result : Draft) : Prop :=
  ∃ clauses, Spelled clauses arguments ∧ draft.Reaches clauses result

theorem accepts_nil_iff : draft.Accepts [] result ↔ draft = result := by
  simp [Accepts, spelled_nil_iff, reaches_nil_iff]

theorem accepts_output_iff {path : String} {rest : List String} :
    draft.Accepts ("-o" :: path :: rest) result ↔
      { draft with output := some path }.Accepts rest result := by
  constructor
  · rintro ⟨clauses, spelled, reached⟩
    obtain ⟨later, spelledLater, rfl⟩ := spelled_output_iff.mp spelled
    obtain ⟨next, output, reachedLater⟩ := reaches_cons_iff.mp reached
    exact ⟨later, spelledLater, reaches_output_iff.mp output ▸ reachedLater⟩
  · rintro ⟨later, spelled, reached⟩
    exact ⟨_, .output spelled, reaches_cons_iff.mpr ⟨_, reaches_output_iff.mpr rfl, reached⟩⟩

theorem accepts_cons_iff {argument : String} {rest : List String} (plain : argument ≠ "-o") :
    draft.Accepts (argument :: rest) result ↔ ∃ asked next, request argument = .ok asked ∧
      draft.take asked = .ok next ∧ next.Accepts rest result := by
  simp only [request_eq_ok_iff, take_eq_ok_iff]
  constructor
  · rintro ⟨clauses, spelled, reached⟩
    obtain ⟨asked, later, spells, spelledLater, rfl⟩ := (spelled_cons_iff plain).mp spelled
    obtain ⟨next, reachedNext, reachedLater⟩ := reaches_cons_iff.mp reached
    exact ⟨asked, next, spells, reachedNext, later, spelledLater, reachedLater⟩
  · rintro ⟨asked, next, spells, reachedNext, later, spelled, reached⟩
    exact ⟨_, .plain spells spelled, reaches_cons_iff.mpr ⟨next, reachedNext, reached⟩⟩

/-- The arguments that are taken in are those that the grammar accepts. -/
theorem takeAll_eq_ok_iff {arguments : List String} :
    draft.takeAll arguments = .ok result ↔ draft.Accepts arguments result := by
  fun_induction takeAll draft arguments with
  | case1 draft => simp [accepts_nil_iff]
  | case2 => simp [Accepts, not_spelled_output]
  | case3 draft path rest inductionHypothesis => rw [inductionHypothesis, accepts_output_iff]
  | case4 draft argument rest plain e unknown => simp [accepts_cons_iff plain, unknown]
  | case5 draft argument rest plain asked made e refused =>
      simp [accepts_cons_iff plain, made, refused]
  | case6 draft argument rest plain asked made between took inductionHypothesis =>
      simp [accepts_cons_iff plain, made, took, inductionHypothesis]

theorem reaches_of_empty_iff :
    empty.Reaches clauses result ↔ (documents clauses).length ≤ 1 ∧
      ⟨(documents clauses).head?, lastOf output? clauses, configure .standard clauses,
        decide (.plain .checkOnly ∈ clauses)⟩ = result := by
  have room : empty.HasRoom clauses ↔ (documents clauses).length ≤ 1 := by
    simp +contextual [HasRoom, empty, or_iff_left_of_imp]
  rw [Reaches, room]
  simp [after, empty]

end Draft

open Clause

theorem parse_eq_ok_iff_draft {arguments : List String} {asked : Options} :
    parse arguments = .ok asked ↔ ∃ draft input, Draft.empty.takeAll arguments = .ok draft ∧
      draft.input = some input ∧ asked = ⟨input, draft.output, draft.config, draft.checkOnly⟩ := by
  unfold parse
  cases taken : Draft.empty.takeAll arguments with
  | error e => simp
  | ok draft => cases named : draft.input <;> simp [named, eq_comm]

/-- An argument list is parsed if it consists of clauses of which one names a document. -/
theorem parse_eq_ok_iff {arguments : List String} {asked : Options} :
    parse arguments = .ok asked ↔ ∃ clauses input, Spelled clauses arguments ∧
      documents clauses = [input] ∧ asked = options clauses input := by
  simp only [parse_eq_ok_iff_draft, Draft.takeAll_eq_ok_iff, Draft.Accepts,
    Draft.reaches_of_empty_iff]
  constructor
  · rintro ⟨_, input, ⟨clauses, spelled, few, rfl⟩, named, rfl⟩
    refine ⟨clauses, input, spelled, ?_, rfl⟩
    obtain ⟨rest, split⟩ := List.head?_eq_some_iff.mp named
    have none : rest = [] := by simpa [split] using few
    rw [split, none]
  · rintro ⟨clauses, input, spelled, named, rfl⟩
    exact ⟨_, input, ⟨clauses, spelled, by simp [named], rfl⟩, by simp [named], rfl⟩

theorem Spelled.parse_eq_ok_iff {clauses : List Clause} {arguments : List String}
    (spelled : Spelled clauses arguments) {asked : Options} :
    parse arguments = .ok asked ↔
      ∃ input, documents clauses = [input] ∧ asked = options clauses input := by
  rw [Command.parse_eq_ok_iff]
  constructor
  · rintro ⟨others, input, again, parsed⟩
    exact ⟨input, spelled.unique again ▸ parsed⟩
  · rintro ⟨input, parsed⟩
    exact ⟨clauses, input, spelled, parsed⟩

namespace Clause

variable {clauses others : List Clause}

/-- What is read off clauses of one kind does not depend on the others. -/
theorem Rearranged.filterMap_eq {α : Type} {value? : Clause → Option α}
    (rearranged : Rearranged clauses others) (kind : Kind)
    (silent : ∀ clause, clause.kind ≠ kind → value? clause = none) :
    clauses.filterMap value? = others.filterMap value? := by
  have within (list : List Clause) :
      list.filterMap value? = (list.filter (·.kind = kind)).filterMap value? := by
    rw [List.filterMap_filter]
    refine List.filterMap_congr fun clause _ => ?_
    by_cases same : clause.kind = kind
    · simp [same]
    · simp [same, silent clause same]
  rw [within, rearranged kind, ← within]

theorem Rearranged.documents_eq (rearranged : Rearranged clauses others) :
    documents clauses = documents others :=
  rearranged.filterMap_eq .document fun clause other => by
    unfold document?
    split <;> simp_all [kind]

theorem Rearranged.mem_iff (rearranged : Rearranged clauses others) (clause : Clause) :
    clause ∈ clauses ↔ clause ∈ others := by
  have within (list : List Clause) :
      clause ∈ list ↔ clause ∈ list.filter (·.kind = clause.kind) := by
    simp [List.mem_filter]
  rw [within, rearranged, ← within]

/-- The order of clauses counts among those of one kind only. -/
theorem Rearranged.options_eq (rearranged : Rearranged clauses others) (input : String) :
    options clauses input = options others input := by
  have outputs : clauses.filterMap output? = others.filterMap output? :=
    rearranged.filterMap_eq .output fun clause other => by
      unfold output?
      split <;> simp_all [kind]
  have indents : clauses.filterMap indent? = others.filterMap indent? :=
    rearranged.filterMap_eq .indent fun clause other => by
      unfold indent?
      split <;> simp_all [kind]
  have widths : clauses.filterMap commentWrap? = others.filterMap commentWrap? :=
    rearranged.filterMap_eq .commentWrap fun clause other => by
      unfold commentWrap?
      split <;> simp_all [kind]
  have scales : clauses.filterMap timescale? = others.filterMap timescale? :=
    rearranged.filterMap_eq .timescale fun clause other => by
      unfold timescale?
      split <;> simp_all [kind]
  have words : clauses.filterMap reserved? = others.filterMap reserved? :=
    rearranged.filterMap_eq .reserve fun clause other => by
      unfold reserved?
      split <;> simp_all [kind]
  simp only [options, configure, lastOf, outputs, indents, widths, scales, words,
    rearranged.mem_iff]

end Clause

/-- An argument list is parsed if it consists of clauses of which one names a document, in whatever
order; if not, there is an error. -/
theorem parse_iff_spelled (arguments : List String) :
    (∀ asked, parse arguments = .ok asked ↔ ∃ clauses input, Spelled clauses arguments ∧
      documents clauses = [input] ∧ asked = options clauses input) ∧
    ((∃ e, parse arguments = .error e) ↔
      ∀ clauses, Spelled clauses arguments → (documents clauses).length ≠ 1) ∧
    ∀ clauses others rearranged, Spelled clauses arguments → Spelled others rearranged →
      Rearranged clauses others → ∀ asked,
        parse arguments = .ok asked ↔ parse rearranged = .ok asked := by
  refine ⟨fun asked => parse_eq_ok_iff, ?_, ?_⟩
  · constructor
    · rintro ⟨e, failed⟩ clauses spelled one
      obtain ⟨input, named⟩ := List.length_eq_one_iff.mp one
      cases failed.symm.trans (parse_eq_ok_iff.mpr ⟨clauses, input, spelled, named, rfl⟩)
    · intro none
      cases parsed : parse arguments with
      | error e => exact ⟨e, rfl⟩
      | ok asked =>
          obtain ⟨clauses, input, spelled, named, rfl⟩ := parse_eq_ok_iff.mp parsed
          exact absurd (congrArg List.length named) (none clauses spelled)
  · intro clauses others rearranged spelled spelledAgain same asked
    rw [spelled.parse_eq_ok_iff, spelledAgain.parse_eq_ok_iff]
    simp only [same.documents_eq, same.options_eq]

-- The argument behind `-o` is a path even if it looks like an option.
example : parse ["--reserve=a, b,", "-o", "--check", "g.json", "--indent=+3", "--reserve=c"] =
    .ok ⟨"g.json", some "--check", ⟨"   ", 60, none, ["a", "b", "c"]⟩, false⟩ := by decide

end BlockVerilog.Command
