import Mathlib
import BlockVerilog.Proofs.Handlers.Branches
import BlockVerilog.Proofs.Pass.Running

/-!
What a conditional prints.

A conditional counts its condition slots up from one and stops at the first that is missing. So it
prints the branches in front of the first gap in the numbers, in order and each with what hangs in
its own slots; the branches behind a gap are left out without an error.
-/

namespace BlockVerilog

/-- A branch as it is printed. -/
structure Branch where
  condition : String
  /-- The body, indented already. -/
  body : String

namespace Branch

def text (branch : Branch) : String :=
  "if (" ++ branch.condition ++ ") begin\n" ++ branch.body ++ "end"

/-- How the last branch is printed, which has no condition. -/
def lastText (body : String) : String := "begin\n" ++ body ++ "end"

/-- Branches, and perhaps a last one without a condition, as one statement. -/
def chainText (branches : List Branch) (last : Option String) : String :=
  " else ".intercalate (branches.map text ++ last.toList.map lastText) ++ "\n"

theorem intercalate_cons (separator first : String) (rest : List String) :
    separator.intercalate (first :: rest) =
      first ++ String.join (rest.map fun text => separator ++ text) := by
  induction rest generalizing first with
  | nil => simp
  | cons second rest inductionHypothesis =>
      rw [String.intercalate_cons_cons, inductionHypothesis, List.map_cons, String.join_cons]
      simp only [String.append_assoc]

theorem length_text (branch : Branch) : 15 ≤ branch.text.length := by
  have opens : "if (".length = 4 := rfl
  have closes : ") begin\n".length = 8 := rfl
  have ends : "end".length = 3 := rfl
  simp only [text, String.length_append]
  omega

theorem length_chainText (first second : Branch) (more : List Branch) (last : Option String) :
    37 ≤ (chainText (first :: second :: more) last).length := by
  have before := first.length_text
  have behind := second.length_text
  have separator : " else ".length = 6 := rfl
  have newline : "\n".length = 1 := rfl
  simp only [chainText, List.map_cons, List.cons_append, intercalate_cons, String.join_cons,
    String.length_append]
  omega

end Branch

namespace Handlers

/-- The numbers of the branches that a node has slots for. -/
def DeclaresBranches (node : Node) (numbers : List Nat) : Prop :=
  numbers.Pairwise (· < ·) ∧ ∀ n, n ∈ numbers ↔ n = 0 ∨ hasCondition node n = true

/-- No condition slot comes after a missing one. -/
def IsGapless (node : Node) : Prop :=
  ∀ n, 0 < n → hasCondition node (n + 1) = true → hasCondition node n = true

theorem IsGapless.downward {node : Node} (gapless : IsGapless node) {n : Nat}
    (present : hasCondition node n = true) :
    ∀ m, 0 < m → m ≤ n → hasCondition node m = true := by
  induction n with
  | zero => exact fun m positive bounded => absurd positive (Nat.not_lt.mpr bounded)
  | succ n inductionHypothesis =>
      intro m positive bounded
      obtain rfl | earlier := Nat.eq_or_lt_of_le bounded
      · exact present
      · exact inductionHypothesis (gapless n (by omega) present) m positive (by omega)

theorem lt_branchCount_iff {node : Node} {n : Nat} :
    n < branchCount node ↔ ∀ m, 0 < m → m ≤ n → hasCondition node m = true := by
  obtain ⟨count, counts, present, missing⟩ : ∃ count, branchCount node = 1 + count ∧
      (∀ m < count, hasCondition node (m + 1) = true) ∧ hasCondition node (count + 1) = false :=
    ⟨_, rfl, length_takeWhile_range (exists_missing_condition node)⟩
  rw [counts]
  constructor
  · intro below m positive bounded
    rw [← Nat.sub_add_cancel positive]
    exact present (m - 1) (by omega)
  · intro below
    by_contra beyond
    have there := below (count + 1) count.succ_pos (by omega)
    rw [missing] at there
    cases there

end Handlers

namespace Generator

open Handlers Pass

section

variable (gen : Generator) (below : Engine)

/-- What is printed for the condition that hangs in a slot. -/
inductive Condition : Option NodeId → PassState → String → PassState → Prop
  | empty {state : PassState} : Condition none state "0" state
  | disabled {state : PassState} {child : NodeId} {node : Node}
      (found : gen.graph.get? child = some node) (off : node.enabled = false) :
      Condition (some child) state "0" state
  | enabled {state after : PassState} {child : NodeId} {node : Node} {text : String}
      {level : Precedence} (found : gen.graph.get? child = some node) (on : node.enabled = true)
      (ran : (below.expression child).outcome state = (.ok (some (text, level)), after)) :
      Condition (some child) state (if text = "" then "0" else text) after

/-- What is printed for the statements that hang in a slot. -/
inductive Body : Option NodeId → PassState → String → PassState → Prop
  | empty {state : PassState} : Body none state "" state
  | chain {state after : PassState} {head : NodeId} {text : String}
      (ran : (below.chain head).outcome state = (.ok text, after)) :
      Body (some head) state (Text.indentLines gen.config.indent text) after

/-- The branches of these numbers, each from its own slots, one after the other. -/
inductive Branches (node : Node) : List Nat → PassState → List Branch → PassState → Prop
  | nil {state : PassState} : Branches node [] state [] state
  | cons {n : Nat} {numbers : List Nat} {state middle between after : PassState} {branch : Branch}
      {more : List Branch}
      (condition : gen.Condition below (node.values.target? (conditionSlot n)) state
        branch.condition middle)
      (body : gen.Body below (node.statements.target? (bodySlot n)) middle branch.body between)
      (rest : Branches node numbers between more after) :
      Branches node (n :: numbers) state (branch :: more) after

/-- The last branch, which is there exactly if its slot is. -/
inductive Last (node : Node) : PassState → Option String → PassState → Prop
  | absent {state : PassState} (missing : node.statements.contains "ELSE" = false) :
      Last node state none state
  | present {state after : PassState} {body : String}
      (there : node.statements.contains "ELSE" = true)
      (holds : gen.Body below (node.statements.target? "ELSE") state body after) :
      Last node state (some body) after

/-- A text is a conditional with the branches of these numbers and no others. -/
def PrintsBranches (node : Node) (numbers : List Nat) (state : PassState) (text : String)
    (after : PassState) : Prop :=
  ∃ branches last between, gen.Branches below node numbers state branches between ∧
    gen.Last below node between last after ∧ text = Branch.chainText branches last

end

variable {gen : Generator} {below : Engine} {id : NodeId} {node : Node} {depth : Nat}
  {state after : PassState} {text : String}

theorem run_bind {α β : Type} (below : Engine) (script : Script α) (f : α → Script β) :
    gen.run below (script >>= f) = gen.run below script >>= fun a => gen.run below (f a) := by
  induction script with
  | done a => rfl
  | fail e => rfl
  | value asked slot required next inductionHypothesis
  | statements asked slot next inductionHypothesis
  | variableName name next inductionHypothesis
  | freshName wanted next inductionHypothesis
  | define key text next inductionHypothesis =>
      simp only [Script.value_bind, Script.statements_bind, Script.variableName_bind,
        Script.freshName_bind, Script.define_bind, Generator.run, inductionHypothesis, bind_assoc]

/-- A successful expression is of a node that is there, and says nothing only if it is disabled. -/
theorem exists_of_expressionAt {given : Option Expression}
    (ran : (gen.expressionAt below id).outcome state = (.ok given, after)) :
    ∃ node, gen.graph.get? id = some node ∧
      (node.enabled = false ∧ given = none ∧ state = after ∨
        node.enabled = true ∧ ∃ expression, given = some expression) := by
  cases found : gen.graph.get? id with
  | none =>
      unfold Generator.expressionAt at ran
      rw [node_eq_throw found] at ran
      cases ran
  | some node =>
      refine ⟨node, rfl, ?_⟩
      cases on : node.enabled with
      | false =>
          rw [expressionAt_of_disabled found on] at ran
          cases ran
          exact .inl ⟨rfl, rfl, rfl⟩
      | true =>
          unfold Generator.expressionAt at ran
          simp only [node_eq_pure found, pure_bind, on, if_true] at ran
          split at ran
          next generate _ =>
            obtain ⟨expression, between, _, ends⟩ := exists_of_outcome_bind ran
            cases ends
            exact .inr ⟨rfl, expression, rfl⟩
          next => cases ran
          next => cases ran

theorem condition_of_value (found : gen.graph.get? id = some node) {slot : String}
    {given : Option String}
    (ran : (gen.value (gen.engine depth) id slot .none).outcome state = (.ok given, after)) :
    gen.Condition (gen.engine depth) (node.values.target? slot) state (given.getD "0") after := by
  rw [value_eq found] at ran
  obtain ⟨expression, between, asked, shows⟩ := exists_of_outcome_bind ran
  cases shows
  cases held : node.values.target? slot with
  | none =>
      rw [held] at asked
      cases asked
      exact .empty
  | some child =>
      rw [held] at asked
      cases depth with
      | zero => cases asked
      | succ depth =>
          have answered : (gen.expressionAt (gen.engine depth) child).outcome state =
              (.ok expression, after) := by
            rw [engine_succ] at asked
            exact asked
          obtain ⟨childNode, there, ⟨off, rfl, rfl⟩ | ⟨on, ⟨text, level⟩, rfl⟩⟩ :=
            exists_of_expressionAt answered
          · exact .disabled there off
          · have bare : parenthesize text level .none = text := by cases level <;> rfl
            have shown : (shown .none (some (text, level))).getD "0" =
                if text = "" then "0" else text := by
              simp only [Generator.shown, bare]
              split <;> rfl
            rw [shown]
            exact .enabled there on asked

theorem body_of_statements (found : gen.graph.get? id = some node) {slot : String}
    (ran : (gen.statements below id slot).outcome state = (.ok text, after)) :
    gen.Body below (node.statements.target? slot) state text after := by
  rw [statements_eq found] at ran
  obtain ⟨chain, between, asked, indents⟩ := exists_of_outcome_bind ran
  cases indents
  cases held : node.statements.target? slot with
  | none =>
      rw [held] at asked
      cases asked
      have nothing : Text.indentLines gen.config.indent "" = "" := rfl
      rw [nothing]
      exact .empty
  | some head =>
      rw [held] at asked
      exact .chain asked

/-- The loop over the branches prints one and goes on. -/
theorem branch_of_run (found : gen.graph.get? id = some node) {count n : Nat}
    (ran : (gen.run (gen.engine depth) (branches (gen.site id node) (count + 1) n)).outcome state =
      (.ok text, after)) :
    ∃ (branch : Branch) (middle between : PassState) (more : String),
      gen.Condition (gen.engine depth) (node.values.target? (conditionSlot n)) state
        branch.condition middle ∧
      gen.Body (gen.engine depth) (node.statements.target? (bodySlot n)) middle branch.body
        between ∧
      (gen.run (gen.engine depth) (branches (gen.site id node) count (n + 1))).outcome between =
        (.ok more, after) ∧
      text = (if n = 0 then "" else " else ") ++ branch.text ++ more := by
  rw [branches, run_bind] at ran
  obtain ⟨condition, middle, asked, ran⟩ := exists_of_outcome_bind ran
  obtain ⟨given, valued, answered, fills⟩ := exists_of_outcome_bind asked
  cases fills
  rw [run_bind] at ran
  obtain ⟨body, between, asked, ran⟩ := exists_of_outcome_bind ran
  obtain ⟨chain, stated, chained, keeps⟩ := exists_of_outcome_bind asked
  cases keeps
  rw [run_bind] at ran
  obtain ⟨more, last, rest, ends⟩ := exists_of_outcome_bind ran
  cases ends
  refine ⟨⟨given.getD "0", body⟩, middle, between, more, condition_of_value found answered,
    body_of_statements found chained, rest, ?_⟩
  simp only [Branch.text, String.append_assoc]

/-- Branches behind the first are printed with an `else` in front of each. -/
theorem branches_of_run (found : gen.graph.get? id = some node) {count n : Nat} (later : n ≠ 0)
    (ran : (gen.run (gen.engine depth) (branches (gen.site id node) count n)).outcome state =
      (.ok text, after)) :
    ∃ list, gen.Branches (gen.engine depth) node (List.range' n count) state list after ∧
      text = String.join (list.map fun branch => " else " ++ branch.text) := by
  induction count generalizing n state text with
  | zero =>
      cases ran
      exact ⟨[], .nil, rfl⟩
  | succ count inductionHypothesis =>
      obtain ⟨branch, middle, between, more, condition, body, rest, rfl⟩ := branch_of_run found ran
      obtain ⟨list, printed, rfl⟩ := inductionHypothesis n.succ_ne_zero rest
      refine ⟨branch :: list, .cons condition body printed, ?_⟩
      rw [if_neg later, List.map_cons, String.join_cons]

theorem last_of_run (found : gen.graph.get? id = some node)
    (ran : (gen.run below (otherwise (gen.site id node))).outcome state = (.ok text, after)) :
    ∃ last, gen.Last below node state last after ∧
      text = String.join (last.toList.map fun body => " else " ++ Branch.lastText body) := by
  have site : (gen.site id node).node = node := rfl
  rw [otherwise, site] at ran
  cases there : node.statements.contains "ELSE" with
  | false =>
      rw [if_neg (Bool.eq_false_iff.mp there)] at ran
      cases ran
      exact ⟨none, .absent there, rfl⟩
  | true =>
      rw [if_pos there, run_bind] at ran
      obtain ⟨body, between, asked, ends⟩ := exists_of_outcome_bind ran
      cases ends
      obtain ⟨chain, stated, chained, keeps⟩ := exists_of_outcome_bind asked
      cases keeps
      refine ⟨some body, .present there (body_of_statements found chained), ?_⟩
      simp [← String.toList_inj, Branch.lastText]

/-- A conditional prints as many branches as it counts. -/
theorem printsBranches_of_run (found : gen.graph.get? id = some node)
    (registered : gen.table.get? node.kind = some conditional)
    (ran : (gen.statementAt (gen.engine depth) id).outcome state = (.ok text, after)) :
    gen.PrintsBranches (gen.engine depth) node (List.range (branchCount node)) state text
      after := by
  unfold Generator.statementAt at ran
  rw [node_eq_pure found, pure_bind, registered] at ran
  simp only [conditional, run_bind] at ran
  obtain ⟨chain, between, chained, ran⟩ := exists_of_outcome_bind ran
  obtain ⟨ending, finished, ended, ends⟩ := exists_of_outcome_bind ran
  cases ends
  obtain ⟨last, holdsLast, rfl⟩ := last_of_run found ended
  obtain ⟨others, counts⟩ : ∃ others, branchCount node = others + 1 := ⟨_, Nat.add_comm 1 _⟩
  have site : (gen.site id node).node = node := rfl
  rw [site, counts] at chained
  obtain ⟨branch, first, second, more, condition, body, rest, rfl⟩ := branch_of_run found chained
  obtain ⟨list, printed, rfl⟩ := branches_of_run found Nat.one_ne_zero rest
  rw [counts, List.range_eq_range', List.range'_succ]
  refine ⟨branch :: list, last, between, .cons condition body printed, holdsLast, ?_⟩
  simp only [Branch.chainText, Branch.intercalate_cons, List.map_cons, List.cons_append,
    List.map_append, List.map_map, String.join_append, if_true, String.empty_append,
    String.append_assoc, Function.comp_def]

/-- A conditional prints its branches in front of the first gap in their numbers, each from its own
slots, and nothing else but its last branch. No branch is lost exactly if there is no gap. -/
theorem conditional_prints_until_gap (builtin : gen.table = .builtin)
    (found : gen.graph.get? id = some node)
    (kind : node.kind = "controls_if" ∨ node.kind = "controls_ifelse")
    (ran : (gen.statementAt (gen.engine depth) id).outcome state = (.ok text, after)) :
    ∃ numbers, gen.PrintsBranches (gen.engine depth) node numbers state text after ∧
      numbers.Pairwise (· < ·) ∧
      (∀ n, n ∈ numbers ↔ ∀ m, 0 < m → m ≤ n → hasCondition node m = true) ∧
      (DeclaresBranches node numbers ↔ IsGapless node) := by
  have registered : gen.table.get? node.kind = some conditional := by
    rw [builtin]
    rcases kind with same | same <;> rw [same] <;>
      exact HandlerTable.get?_builtin (by simp [Handlers.builtin])
  have increasing : (List.range (branchCount node)).Pairwise (· < ·) := List.pairwise_lt_range
  have member : ∀ n, n ∈ List.range (branchCount node) ↔
      ∀ m, 0 < m → m ≤ n → hasCondition node m = true := fun n =>
    List.mem_range.trans lt_branchCount_iff
  refine ⟨_, printsBranches_of_run found registered ran, increasing, member, ?_⟩
  constructor
  · rintro ⟨_, declared⟩ n positive present
    exact (member (n + 1)).mp ((declared (n + 1)).mpr (.inr present)) n positive n.le_succ
  · intro gapless
    refine ⟨increasing, fun n => (member n).trans ⟨fun below => ?_, ?_⟩⟩
    · exact n.eq_zero_or_pos.imp_right fun positive => below n positive le_rfl
    · rintro (rfl | present)
      · exact fun m positive bounded => absurd positive (Nat.not_lt.mpr bounded)
      · exact gapless.downward present

/-- A conditional whose second branch has no slot, and its third one has. -/
def skippedNumber : Generator where
  graph :=
    { nodes := #[
        { Node.blank "controls_if" .statement with
          values := .ofList [("IF0", some 1), ("IF2", some 1)]
          statements := .ofList [("DO0", some 2), ("DO2", some 3)] },
        Node.blank "one" .expression,
        { Node.blank "finish_block" .statement with key := "stop" },
        { Node.blank "finish_block" .statement with key := "lost" }]
      vars := [] }
  table := .builtin
  config := .standard

theorem skippedNumber_prints_until_gap :
    ∃ node after, (skippedNumber.table = .builtin ∧
      skippedNumber.graph.get? 0 = some node ∧ node.kind = "controls_if" ∧
      (skippedNumber.statementAt (skippedNumber.engine 4) 0).outcome (.initial .standard) =
        (.ok "if (1) begin\n  $finish;\nend\n", after)) ∧
      ∃ numbers, skippedNumber.PrintsBranches (skippedNumber.engine 4) node numbers
          (.initial .standard) "if (1) begin\n  $finish;\nend\n" after ∧
        (DeclaresBranches node numbers ↔ IsGapless node) := by
  have ran : (skippedNumber.statementAt (skippedNumber.engine 4) 0).outcome (.initial .standard) =
      (.ok "if (1) begin\n  $finish;\nend\n", _) := Prod.ext (by cbv) rfl
  obtain ⟨numbers, prints, _, _, complete⟩ :=
    conditional_prints_until_gap rfl rfl (.inl rfl) ran
  exact ⟨_, _, ⟨rfl, rfl, rfl, ran⟩, numbers, prints, complete⟩

/-- A conditional with a gap in the numbers of its slots loses a branch, and no error tells so. -/
theorem skippedNumber_loses_branch :
    ¬ ∀ (gen : Generator) (roots : List NodeId) (id : NodeId) (node : Node) (text : String)
        (after : PassState), gen.table = .builtin → gen.graph.validate roots = .ok () →
      gen.graph.get? id = some node → node.enabled = true →
      node.kind = "controls_if" ∨ node.kind = "controls_ifelse" →
      (gen.statement id).outcome (.initial gen.config) = (.ok text, after) →
      ∃ numbers, DeclaresBranches node numbers ∧
        gen.PrintsBranches gen.whole node numbers (.initial gen.config) text after := by
  intro complete
  have ran : (skippedNumber.statement 0).outcome (.initial .standard) =
      (.ok "if (1) begin\n  $finish;\nend\n", _) := Prod.ext (by cbv) rfl
  obtain ⟨numbers, ⟨_, declared⟩, branches, last, between, printed, _, same⟩ :=
    complete skippedNumber [0] 0 _ _ _ rfl (by cbv) rfl rfl (.inl rfl) ran
  have first : 0 ∈ numbers := (declared 0).mpr (.inl rfl)
  have third : 2 ∈ numbers := (declared 2).mpr (.inr (by decide))
  -- two branches alone are longer than the text
  cases printed with
  | nil => cases first
  | cons condition body rest =>
      cases rest with
      | nil =>
          rw [List.mem_singleton] at first third
          omega
      | cons =>
          have long : 37 ≤ "if (1) begin\n  $finish;\nend\n".length :=
            same ▸ Branch.length_chainText _ _ _ _
          exact absurd long (by decide)

end Generator

end BlockVerilog
