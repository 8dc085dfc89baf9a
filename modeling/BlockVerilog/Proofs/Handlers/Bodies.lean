import BlockVerilog.Proofs.Graph.Printed
import BlockVerilog.Proofs.Handlers.Fate
import BlockVerilog.Proofs.Handlers.ReadOnly
import BlockVerilog.Proofs.Text.FullLines
import BlockVerilog.Proofs.Text.Literal

/-!
What the built-in handlers make of bodies and of the time scale.

A handler asks for the bodies of its kind and for no others, and keeps their lines apart from its
own. A time scale only adds a declaration to the kinds that delay.
-/

namespace BlockVerilog

open Text

/-- Kinds of statements that need a time scale. -/
def Node.delays (node : Node) : Bool := node.kind = "time_block" || node.kind = "always_simu"

/-- The text that a node displays, if it is of the kind that does. -/
def Node.displayed? (node : Node) : Option String :=
  if node.kind = "display_block" then some (node.field "text") else none

/-- The statement that displays a text. -/
def displayStatement (text : String) : String :=
  "$display(\"" ++ String.ofList (escapeLiteral text.toList) ++ "\");"

/-- A text holds the line of a display, and behind it those of bodies. -/
def Carries (node : Node) (bodies : List String) (text : String) : Prop :=
  (node.displayed?.toList.map (fun text => (displayStatement text).toList) ++
    bodies.flatMap fun body => fullLines body.toList).Sublist (fullLines text.toList)

namespace Script

variable {α β : Type}

/-- A script asks for the bodies in these slots, in order, and makes a result with `post` of all
bodies; `before` are those that it was already given. -/
def Prints (post : List String → α → Prop) :
    Script α → (slots : List String) → (before : List String) → Prop
  | done a, slots, before => slots = [] ∧ post before a
  | fail _, _, _ => True
  | value _ _ _ next, slots, before => ∀ text, (next text).Prints post slots before
  | statements _ slot next, slots, before =>
      ∃ later, slots = slot :: later ∧
        ∀ body, IsBody body → (next body).Prints post later (before ++ [body])
  | variableName _ next, slots, before => ∀ name, (next name).Prints post slots before
  | freshName _ next, slots, before => ∀ name, (next name).Prints post slots before
  | define _ _ next, slots, before => ∀ isNew, (next isNew).Prints post slots before

theorem Prints.bind {post : List String → α → Prop} {postNext : List String → β → Prop}
    {script : Script α} {f : α → Script β} {slots slotsNext before : List String}
    (prints : script.Prints post slots before)
    (next : ∀ bodies a, post bodies a → (f a).Prints postNext slotsNext bodies) :
    (script >>= f).Prints postNext (slots ++ slotsNext) before := by
  induction script generalizing slots before with
  | done a =>
      obtain ⟨rfl, holds⟩ := prints
      exact next before a holds
  | fail e => trivial
  | value node slot required more inductionHypothesis =>
      exact fun text => inductionHypothesis text (prints text)
  | statements node slot more inductionHypothesis =>
      obtain ⟨later, rfl, prints⟩ := prints
      exact ⟨later ++ slotsNext, rfl, fun body whole =>
        inductionHypothesis body (prints body whole)⟩
  | variableName id more inductionHypothesis =>
      exact fun name => inductionHypothesis name (prints name)
  | freshName wanted more inductionHypothesis =>
      exact fun name => inductionHypothesis name (prints name)
  | define key text more inductionHypothesis =>
      exact fun isNew => inductionHypothesis isNew (prints isNew)

theorem Prints.bind_done {post : List String → α → Prop} {postNext : List String → β → Prop}
    {script : Script α} {g : α → β} {slots before : List String}
    (prints : script.Prints post slots before)
    (next : ∀ bodies a, post bodies a → postNext bodies (g a)) :
    (script >>= fun a => .done (g a)).Prints postNext slots before :=
  List.append_nil slots ▸ prints.bind fun bodies a holds => ⟨rfl, next bodies a holds⟩

theorem Prints.mono {post weaker : List String → α → Prop} {script : Script α}
    {slots before : List String} (prints : script.Prints post slots before)
    (implies : ∀ bodies a, post bodies a → weaker bodies a) :
    script.Prints weaker slots before := by
  induction script generalizing slots before with
  | done a => exact ⟨prints.1, implies _ _ prints.2⟩
  | fail e => trivial
  | value node slot required more inductionHypothesis =>
      exact fun text => inductionHypothesis text (prints text)
  | statements node slot more inductionHypothesis =>
      obtain ⟨later, rfl, prints⟩ := prints
      exact ⟨later, rfl, fun body whole => inductionHypothesis body (prints body whole)⟩
  | variableName id more inductionHypothesis =>
      exact fun name => inductionHypothesis name (prints name)
  | freshName wanted more inductionHypothesis =>
      exact fun name => inductionHypothesis name (prints name)
  | define key text more inductionHypothesis =>
      exact fun isNew => inductionHypothesis isNew (prints isNew)

end Script

namespace Handler

/-- At a node, a handler asks for the bodies of its kind, and its statements carry them. -/
def Prints (site : Site) : Handler → Prop
  | expression generate => (generate site).Prints (fun _ _ => True) [] []
  | statement generate =>
      (generate site).Prints (Carries site.node) site.node.bodySlots []

/-- At a node, a handler asks for no body. -/
def PrintsAlone (site : Site) : Handler → Prop
  | expression generate => (generate site).Prints (fun _ _ => True) [] []
  | statement generate => (generate site).Prints (fun bodies _ => bodies = []) [] []

@[simp] theorem printsAlone_expression {site : Site} {generate : Site → Script Expression} :
    (expression generate).PrintsAlone site ↔
      (generate site).Prints (fun _ _ => True) [] [] := Iff.rfl

@[simp] theorem printsAlone_statement {site : Site} {generate : Site → Script String} :
    (statement generate).PrintsAlone site ↔
      (generate site).Prints (fun bodies _ => bodies = []) [] [] := Iff.rfl

end Handler

namespace Handlers

/-- The handlers whose statements have bodies or a text to display. -/
def bodyHandlers : List (String × Handler) :=
  [("always_blk", alwaysBlock), ("always_simu", alwaysDelay),
    ("intial", initialBlock "begin" "end"), ("intial_par", initialBlock "fork" "join"),
    ("controls_if", conditional), ("controls_ifelse", conditional),
    ("if_else_block", twoWayConditional), ("time_block", delay), ("display_block", display)]

section

attribute [local simp] Script.Prints Site.value Site.valueOr Site.statements Site.invalidField

variable (site : Site)

theorem binary_printsAlone (choice : String → Option BinaryOperator) :
    (binary choice).PrintsAlone site := by
  unfold binary
  rw [Handler.printsAlone_expression]
  split
  · simp [BinaryOperator.script]
  · simp

theorem logical_printsAlone (and or : BinaryOperator) : (logical and or).PrintsAlone site := by
  unfold logical
  rw [Handler.printsAlone_expression]
  split
  · simp [LogicalOperator.script]
  · simp

/-- Every other kind prints without bodies. -/
theorem printsAlone_or_body {entry : String × Handler} (registered : entry ∈ builtin) :
    (entry.2.PrintsAlone site ∧ entry.1 ∉ bodyHandlers.map Prod.fst) ∨ entry ∈ bodyHandlers := by
  have signs : logicSigns.PrintsAlone site := logical_printsAlone site _ _
  have words : logicWords.PrintsAlone site := logical_printsAlone site _ _
  revert entry
  simp [builtin, bodyHandlers, binary_printsAlone, signs, words, truthValue, constant, number,
    variableRead, sizedValue, sizedStatement, negation, ternary, edge, bitSelect, concatenation,
    replication, moduleHead, testHead, fixedLine, port, gate, inverter, assignment, monitor]

end

theorem displayed?_of_ne {node : Node} (other : node.kind ≠ "display_block") :
    node.displayed? = none := if_neg other

/-- What holds the lines of all its bodies carries them, if the node displays nothing itself. -/
theorem carries_of_holds {node : Node} {bodies : List String} {text : String}
    (silent : node.displayed? = none)
    (holds : Holds (bodies.flatMap fun body => fullLines body.toList) text) :
    Carries node bodies text := by
  rw [Carries, silent]
  exact holds.sublist

section

variable {site : Site}

theorem carries_one (silent : site.node.displayed? = none) {head body : String}
    (ended : head.toList.getLast? = some '\n') (whole : IsBody body) (closing : String) :
    Carries site.node [body] (head ++ body ++ closing) := by
  apply carries_of_holds silent
  rw [List.flatMap_singleton]
  exact holds_body ended whole closing

theorem alwaysBlock_prints (kind : site.node.kind = "always_blk") : alwaysBlock.Prints site := by
  have silent := displayed?_of_ne (by rw [kind]; decide)
  have slots : site.node.bodySlots = ["body"] := by simp [Node.bodySlots, kind]
  intro condition
  refine ⟨[], slots, fun body whole => ⟨rfl, ?_⟩⟩
  exact carries_one silent (getLast?_toList_append (by decide) _) whole _

theorem initialBlock_prints {opening closing : String}
    (kind : site.node.kind = "intial" ∨ site.node.kind = "intial_par") :
    (initialBlock opening closing).Prints site := by
  have silent := displayed?_of_ne (by rcases kind with kind | kind <;> rw [kind] <;> decide)
  have slots : site.node.bodySlots = ["body"] := by
    rcases kind with kind | kind <;> simp [Node.bodySlots, kind]
  refine ⟨[], slots, fun body whole => ⟨rfl, ?_⟩⟩
  have regroup : "initial " ++ opening ++ "\n" ++ body ++ closing ++ "\n" =
      "initial " ++ opening ++ "\n" ++ body ++ (closing ++ "\n") := String.append_assoc
  rw [regroup]
  exact carries_one silent (getLast?_toList_append (by decide) _) whole _

/-- Whether or not there is a time scale to declare, nothing is asked for it. -/
theorem declareTimescale_prints {α : Type} {post : List String → α → Prop} {script : Script α}
    {slots before : List String} (prints : script.Prints post slots before) :
    (declareTimescale site >>= fun _ => script).Prints post slots before := by
  unfold declareTimescale
  split
  · exact prints
  · exact fun _ => prints

theorem alwaysDelay_prints (kind : site.node.kind = "always_simu") : alwaysDelay.Prints site := by
  have silent := displayed?_of_ne (by rw [kind]; decide)
  have slots : site.node.bodySlots = ["code"] := by simp [Node.bodySlots, kind]
  apply declareTimescale_prints
  intro time
  refine ⟨[], slots, fun body whole => ⟨rfl, ?_⟩⟩
  exact carries_one silent (getLast?_toList_append (by decide) _) whole _

theorem delay_prints (kind : site.node.kind = "time_block") : delay.Prints site := by
  have silent := displayed?_of_ne (by rw [kind]; decide)
  have slots : site.node.bodySlots = ["arg2"] := by simp [Node.bodySlots, kind]
  apply declareTimescale_prints
  intro time
  refine ⟨[], slots, fun body whole => ⟨rfl, ?_⟩⟩
  rw [← @String.append_empty (_ ++ body)]
  exact carries_one silent (getLast?_toList_append (by decide) _) whole _

theorem twoWayConditional_prints (kind : site.node.kind = "if_else_block") :
    twoWayConditional.Prints site := by
  have silent := displayed?_of_ne (by rw [kind]; decide)
  have slots : site.node.bodySlots = ["if_code", "else_code"] := by simp [Node.bodySlots, kind]
  intro first
  refine ⟨["else_code"], slots, fun yes wholeYes second => ?_⟩
  refine ⟨[], rfl, fun no wholeNo => ⟨rfl, carries_of_holds silent ?_⟩⟩
  have ended : ∀ front : String, (front ++ ") begin\n").toList.getLast? = some '\n' :=
    getLast?_toList_append (by decide)
  have both := (holds_body (ended ("if (" ++ first.getD "0")) wholeYes "").append
    (holds_body (ended ("end\nelse if (" ++ second.getD "0")) wholeNo "end\n")
  simpa only [String.append_empty, String.append_assoc, List.nil_append, List.cons_append,
    List.flatMap_cons, List.flatMap_nil, List.append_nil] using both

/-- The branches of a conditional from one on hold the lines of the bodies that they add. -/
theorem branches_prints (count n : Nat) (before : List String) :
    (branches site count n).Prints
      (fun bodies text => ∃ added, bodies = before ++ added ∧
        Holds (added.flatMap fun body => fullLines body.toList) text)
      ((List.range' n count).map bodySlot) before := by
  induction count generalizing n before with
  | zero => exact ⟨rfl, [], (List.append_nil before).symm, holds_nil ""⟩
  | succ count inductionHypothesis =>
      intro condition
      refine ⟨(List.range' (n + 1) count).map bodySlot, rfl, fun body whole => ?_⟩
      apply (inductionHypothesis (n + 1) (before ++ [body])).bind_done
      rintro bodies more ⟨added, rfl, holds⟩
      refine ⟨body :: added, by rw [List.append_assoc, List.singleton_append], ?_⟩
      rw [List.flatMap_cons]
      have head := holds_body (getLast?_toList_append (by decide : ") begin\n".toList.getLast? = _)
        ((if n = 0 then "" else " else ") ++ "if (" ++ condition.getD "0")) whole "end"
      exact head.append holds

theorem otherwise_prints (before : List String) :
    (otherwise site).Prints
      (fun bodies text => ∃ added, bodies = before ++ added ∧
        Holds (added.flatMap fun body => fullLines body.toList) text)
      (if site.node.statements.contains "ELSE" then ["ELSE"] else []) before := by
  unfold otherwise
  split
  · refine ⟨[], rfl, fun body whole => ⟨rfl, [body], rfl, ?_⟩⟩
    rw [List.flatMap_singleton]
    exact holds_body (by decide) whole "end"
  · exact ⟨rfl, [], (List.append_nil before).symm, holds_nil ""⟩

theorem conditional_prints
    (kind : site.node.kind = "controls_if" ∨ site.node.kind = "controls_ifelse") :
    conditional.Prints site := by
  have silent := displayed?_of_ne (by rcases kind with kind | kind <;> rw [kind] <;> decide)
  have slots : site.node.bodySlots = (List.range' 0 (branchCount site.node)).map bodySlot ++
      if site.node.statements.contains "ELSE" then ["ELSE"] else [] := by
    rw [← List.range_eq_range']
    rcases kind with kind | kind <;> simp [Node.bodySlots, kind]
  change Script.Prints _ _ site.node.bodySlots []
  rw [slots]
  apply (branches_prints (branchCount site.node) 0 []).bind
  rintro _ chain ⟨first, rfl, holdsFirst⟩
  apply (otherwise_prints _).bind_done
  rintro _ last ⟨second, rfl, holdsSecond⟩
  apply carries_of_holds silent
  have all := (holdsFirst.append holdsSecond).append (holds_nil "\n")
  rwa [List.append_nil, ← List.flatMap_append] at all

theorem display_prints (kind : site.node.kind = "display_block") : display.Prints site := by
  have slots : site.node.bodySlots = [] := by simp [Node.bodySlots, kind]
  have displayed : site.node.displayed? = some (site.field "text") := if_pos kind
  refine ⟨slots, ?_⟩
  rw [Carries, displayed, List.flatMap_nil, List.append_nil, Option.toList_some, List.map_singleton]
  have clean : '\n' ∉ (displayStatement (site.field "text")).toList := by
    simp [displayStatement, newline_not_mem_escapeLiteral]
  have ended : ("$display(\"" ++ String.ofList (escapeLiteral (site.field "text").toList) ++
      "\");\n").toList = (displayStatement (site.field "text")).toList ++ ['\n'] := by
    simp [displayStatement]
  rw [ended, fullLines_newline, lines_of_not_mem clean]

theorem bodySlots_of_not_body (other : site.node.kind ∉ bodyHandlers.map Prod.fst) :
    site.node.bodySlots = [] ∧ site.node.displayed? = none := by
  simp only [bodyHandlers, List.map_cons, List.map_nil, List.mem_cons, List.not_mem_nil, or_false,
    not_or] at other
  refine ⟨?_, displayed?_of_ne other.2.2.2.2.2.2.2.2⟩
  unfold Node.bodySlots
  split <;> simp_all

theorem prints_of_mem_builtin (site : Site) {handler : Handler}
    (registered : (site.node.kind, handler) ∈ builtin) : handler.Prints site := by
  rcases printsAlone_or_body site registered with ⟨alone, other⟩ | body
  · obtain ⟨slots, silent⟩ := bodySlots_of_not_body other
    cases handler with
    | expression generate => exact alone
    | statement generate =>
        change Script.Prints _ _ site.node.bodySlots []
        rw [slots]
        apply Script.Prints.mono alone
        rintro _ text rfl
        exact carries_of_holds silent (holds_nil text)
  · simp only [bodyHandlers, List.mem_cons, Prod.mk.injEq, List.not_mem_nil, or_false] at body
    rcases body with ⟨kind, rfl⟩ | ⟨kind, rfl⟩ | ⟨kind, rfl⟩ | ⟨kind, rfl⟩ | ⟨kind, rfl⟩ |
      ⟨kind, rfl⟩ | ⟨kind, rfl⟩ | ⟨kind, rfl⟩ | ⟨kind, rfl⟩
    · exact alwaysBlock_prints kind
    · exact alwaysDelay_prints kind
    · exact initialBlock_prints (.inl kind)
    · exact initialBlock_prints (.inr kind)
    · exact conditional_prints (.inl kind)
    · exact conditional_prints (.inr kind)
    · exact twoWayConditional_prints kind
    · exact delay_prints kind
    · exact display_prints kind

end

end Handlers

/-- A script of a node that only reads, makes results with `made`, and prints bodies. -/
structure Script.Suits {α : Type} (script : Script α) (id : NodeId) (made : α → Prop)
    (post : List String → α → Prop) (slots before : List String) : Prop where
  isLocal : script.IsLocal id
  readOnly : script.IsReadOnly fun _ => True
  makes : script.Makes made
  prints : script.Prints post slots before

namespace Handlers

section

variable {site : Site} (timeless : site.config.timescale = none)
include timeless

theorem expression_suits {generate : Site → Script Expression}
    (registered : (site.node.kind, .expression generate) ∈ builtin) :
    (generate site).Suits site.id (fun given => solid given.1 = true) (fun _ _ => True) [] [] where
  isLocal := isLocal_of_mem_builtin registered site
  readOnly := isReadOnly_of_mem_builtin site timeless registered fun _ _ => trivial
  makes := (inStep_of_mem_builtin registered).makesBlocks site
  prints := prints_of_mem_builtin site registered

theorem statement_suits {generate : Site → Script String}
    (registered : (site.node.kind, .statement generate) ∈ builtin) :
    (generate site).Suits site.id IsBlock (Carries site.node) site.node.bodySlots [] where
  isLocal := isLocal_of_mem_builtin registered site
  readOnly := isReadOnly_of_mem_builtin site timeless registered fun _ _ => trivial
  makes := (inStep_of_mem_builtin registered).makesBlocks site
  prints := prints_of_mem_builtin site registered

end

end Handlers

namespace Handler

/-- At a node, a handler does the same under other settings. -/
def SameUnder (config : Config) (site : Site) : Handler → Prop
  | expression generate => generate (site.under config) = generate site
  | statement generate => generate (site.under config) = generate site

end Handler

namespace Handlers

/-- The handlers of the kinds that delay. -/
def delayHandlers : List (String × Handler) :=
  [("time_block", delay), ("always_simu", alwaysDelay)]

/-- What is declared of a time scale. -/
def timescaleLine (scale : String) : String := "`timescale " ++ scale

section

variable (config : Config) (site : Site)

theorem branches_under (count n : Nat) :
    branches (site.under config) count n = branches site count n := by
  induction count generalizing n with
  | zero => rfl
  | succ count inductionHypothesis =>
      unfold branches
      rw [inductionHypothesis]
      rfl

theorem conditional_sameUnder : conditional.SameUnder config site := by
  change (branches (site.under config) _ 0 >>= _) = (branches site _ 0 >>= _)
  rw [branches_under]
  rfl

theorem sameUnder_or_delay {entry : String × Handler} (registered : entry ∈ builtin) :
    (entry.2.SameUnder config site ∧ entry.1 ∉ delayHandlers.map Prod.fst) ∨
      entry ∈ delayHandlers := by
  have conditionals := conditional_sameUnder config site
  revert entry
  rw [builtin]
  simp only [List.forall_mem_cons]
  and_intros
  all_goals first
    | exact .inl ⟨rfl, by decide⟩
    | exact .inl ⟨conditionals, by decide⟩
    | exact .inr (by simp [delayHandlers])
    | exact fun _ none => absurd none List.not_mem_nil

/-- A time scale that is set adds its declaration to the kinds that delay, and nothing else. -/
theorem expression_under {generate : Site → Script Expression}
    (registered : (site.node.kind, .expression generate) ∈ builtin) :
    generate (site.under config) = generate site := by
  rcases sameUnder_or_delay config site registered with ⟨same, _⟩ | isDelay
  · exact same
  · simp [delayHandlers, delay, alwaysDelay] at isDelay

/-- The declaration comes first, and the rest of a delay is the same with and without it. -/
theorem declareTimescale_under {α : Type} {script : Script α}
    (timeless : site.config.timescale = none) {scale : String}
    (timed : config.timescale = some scale) :
    (declareTimescale (site.under config) >>= fun _ => script) =
      .define timescaleKey (timescaleLine scale) fun _ =>
        declareTimescale site >>= fun _ => script := by
  have declared : (site.under config).config.timescale = some scale := timed
  rw [declareTimescale, declared, declareTimescale, timeless]
  rfl

theorem statement_under {generate : Site → Script String}
    (registered : (site.node.kind, .statement generate) ∈ builtin)
    (timeless : site.config.timescale = none) {scale : String}
    (timed : config.timescale = some scale) :
    generate (site.under config) =
      if site.node.delays then .define timescaleKey (timescaleLine scale) fun _ => generate site
      else generate site := by
  rcases sameUnder_or_delay config site registered with ⟨same, other⟩ | isDelay
  · rw [if_neg]
    · exact same
    · simpa [delayHandlers, Node.delays] using other
  · simp only [delayHandlers, List.mem_cons, Prod.mk.injEq, List.not_mem_nil, or_false] at isDelay
    rcases isDelay with ⟨kind, same⟩ | ⟨kind, same⟩
    · obtain rfl := Handler.statement.inj same
      rw [if_pos (by simp [Node.delays, kind])]
      exact declareTimescale_under config site timeless timed
    · obtain rfl := Handler.statement.inj same
      rw [if_pos (by simp [Node.delays, kind])]
      exact declareTimescale_under config site timeless timed

end

end Handlers

end BlockVerilog
