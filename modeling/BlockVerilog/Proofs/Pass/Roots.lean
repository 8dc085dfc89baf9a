import Mathlib
import BlockVerilog.Proofs.Handlers.Check
import BlockVerilog.Proofs.Pass.History
import BlockVerilog.Proofs.Pass.Rests
import BlockVerilog.Proofs.Related

/-!
Roots are generated apart from each other.

Where no root leaves anything behind, each gives from the state that a pass begins with what it
gives in a pass of its own. The last cleanup of the texts together is that of each text.
-/

namespace BlockVerilog

open Text

namespace Graph

variable {g : Graph} {roots : List NodeId} {id : NodeId}

theorem isLive_iff_each : g.IsLive roots id ↔ ∃ root ∈ roots, g.IsLive [root] id := by
  simp only [IsLive, List.mem_singleton, exists_eq_left]

theorem wellFormed_iff_each (nonempty : roots ≠ []) :
    g.WellFormed roots ↔ ∀ root ∈ roots, g.WellFormed [root] := by
  constructor
  · intro formed root listed
    exact { formed with roots := List.forall_mem_singleton.mpr (formed.roots root listed) }
  · intro each
    obtain ⟨first, rest, rfl⟩ := List.exists_cons_of_ne_nil nonempty
    refine { each first List.mem_cons_self with roots := ?_ }
    intro root listed
    exact (each root listed).roots root (List.mem_singleton_self root)

/-- Every variable that a node reached from the roots reads or assigns is in the workspace. -/
def DeclaresVariables (g : Graph) (roots : List NodeId) : Prop :=
  ∀ id node name, g.IsReached roots id → g.get? id = some node → node.variable? = some name →
    g.HasVariable name

theorem declaresVariables_of_forall
    (all : ∀ node ∈ g.nodes.toList, ∀ name ∈ node.variable?, ∃ v ∈ g.vars, v.id = name) :
    g.DeclaresVariables roots := by
  intro id node name _ found reads
  exact all node (mem_nodes_iff.mpr ⟨id, found⟩) name reads

end Graph

namespace Generator

open Pass

variable {gen : Generator} {roots : List NodeId}

/-- The checks of a pass look at each root by itself. -/
theorem precheck_iff_each (nonempty : roots ≠ []) :
    gen.precheck roots = .ok () ↔ ∀ root ∈ roots, gen.precheck [root] = .ok () := by
  simp only [precheck_eq_ok_iff, Graph.validate_eq_ok_iff, HandlerTable.check_eq_ok_iff,
    Graph.wellFormed_iff_each nonempty]
  constructor
  · rintro ⟨formed, checked⟩ root listed
    refine ⟨formed root listed, fun id node live => checked id node ?_⟩
    exact Graph.isLive_iff_each.mpr ⟨root, listed, live⟩
  · intro each
    refine ⟨fun root listed => (each root listed).1, fun id node live => ?_⟩
    obtain ⟨root, listed, liveThere⟩ := Graph.isLive_iff_each.mp live
    exact (each root listed).2 id node liveThere

/-- The state in which a pass turns to its roots. -/
def begun (gen : Generator) : PassState := (PassState.initial gen.config).named gen.namedVars

/-- From the state that a pass begins with, a root gives a text and leaves nothing behind. -/
def Gives (gen : Generator) (root : NodeId) (text : String) : Prop :=
  (gen.root root).outcome gen.begun = (.ok text, gen.begun)

theorem declarations_begun (gen : Generator) : gen.begun.declarations = ∅ :=
  PassState.declarations_named _ gen.namedVars

theorem finish_begun (gen : Generator) (body : String) : finish gen.begun body = tidied body := by
  rw [finish, declarations_begun]
  rfl

/-- Roots that give texts give them together too. -/
theorem outcome_rootTexts {texts : List String} (gives : List.Forall₂ gen.Gives roots texts) :
    (gen.rootTexts roots).outcome gen.begun = (.ok (texts.filter (· ≠ "")), gen.begun) := by
  induction gives with
  | nil => rfl
  | @cons root text roots texts here _ inductionHypothesis =>
      rw [rootTexts, outcome_bind_of_ok here, outcome_bind_of_ok inductionHypothesis]
      by_cases empty : text = ""
      · rw [List.filter_cons_of_neg (by simpa using empty), if_pos empty]
        rfl
      · rw [List.filter_cons_of_pos (by simpa using empty), if_neg empty]
        rfl

/-- Where roots together give anything, each gives a text. -/
theorem exists_texts (rests : ∀ root ∈ roots, (gen.root root).Rests gen.begun IsBlocks)
    {found : List String} {after : PassState}
    (ran : (gen.rootTexts roots).outcome gen.begun = (.ok found, after)) :
    ∃ texts, List.Forall₂ gen.Gives roots texts := by
  induction roots generalizing found after with
  | nil => exact ⟨[], .nil⟩
  | cons root roots inductionHypothesis =>
      rw [List.forall_mem_cons] at rests
      rw [rootTexts] at ran
      rcases rests.1.ok_or_error with ⟨text, gives, _⟩ | ⟨e, _, failed⟩
      · rw [outcome_bind_of_ok gives] at ran
        rcases others : (gen.rootTexts roots).outcome gen.begun with ⟨e | more, last⟩
        · rw [outcome_bind_of_error others] at ran
          cases ran
        · obtain ⟨texts, givesAll⟩ := inductionHypothesis rests.2 others
          exact ⟨text :: texts, .cons gives givesAll⟩
      · rw [outcome_bind_of_error failed] at ran
        cases ran

theorem code_eq_of_accepted (accepted : gen.precheck roots = .ok ()) :
    gen.code roots = (Pass.outcome (do
      let texts ← gen.rootTexts roots
      return finish (← get) ("\n".intercalate texts)) gen.begun).1 :=
  congrArg Prod.fst (outcome_generate_of_ok gen accepted (.initial gen.config))

/-- A pass gives the texts of its roots, as they are without each other. -/
theorem code_eq_ok_iff (rests : ∀ root ∈ roots, (gen.root root).Rests gen.begun IsBlocks)
    {code : String} :
    gen.code roots = .ok code ↔ gen.precheck roots = .ok () ∧
      ∃ texts, List.Forall₂ gen.Gives roots texts ∧
        code = tidied ("\n".intercalate (texts.filter (· ≠ ""))) := by
  have together : ∀ {texts}, gen.precheck roots = .ok () → List.Forall₂ gen.Gives roots texts →
      gen.code roots = .ok (tidied ("\n".intercalate (texts.filter (· ≠ "")))) := by
    intro texts accepted gives
    rw [code_eq_of_accepted accepted, outcome_bind_of_ok (outcome_rootTexts gives), ← finish_begun]
    rfl
  constructor
  · intro ran
    cases checked : gen.precheck roots with
    | error e =>
        have refused : gen.code roots = .error e :=
          congrArg Prod.fst (outcome_generate_of_error checked (.initial gen.config))
        rw [refused] at ran
        cases ran
    | ok =>
        rcases others : (gen.rootTexts roots).outcome gen.begun with ⟨e | found, after⟩
        · rw [code_eq_of_accepted checked, outcome_bind_of_error others] at ran
          cases ran
        · obtain ⟨texts, gives⟩ := exists_texts rests others
          rw [together checked gives] at ran
          exact ⟨rfl, texts, gives, (Except.ok.inj ran).symm⟩
  · rintro ⟨accepted, texts, gives, rfl⟩
    exact together accepted gives

theorem code_singleton_eq_ok_iff {root : NodeId}
    (rests : (gen.root root).Rests gen.begun IsBlocks) {code : String} :
    gen.code [root] = .ok code ↔
      gen.precheck [root] = .ok () ∧ ∃ text, gen.Gives root text ∧ code = tidied text := by
  have alone : ∀ text : String, "\n".intercalate ([text].filter (· ≠ "")) = text := by
    intro text
    by_cases empty : text = ""
    · simp [empty]
    · simp [empty]
  rw [code_eq_ok_iff (List.forall_mem_singleton.mpr rests)]
  apply and_congr_right
  intro _
  constructor
  · rintro ⟨_, _ | ⟨gives, _ | _⟩, rfl⟩
    exact ⟨_, gives, congrArg tidied (alone _)⟩
  · rintro ⟨text, gives, rfl⟩
    exact ⟨[text], .cons gives .nil, (congrArg tidied (alone text)).symm⟩

/-- The texts of roots together are those of each root by itself. -/
theorem code_of_each (rests : ∀ root ∈ roots, (gen.root root).Rests gen.begun IsBlocks)
    (nonempty : roots ≠ []) {singles : List String}
    (each : List.Forall₂ (fun root single => gen.code [root] = .ok single) roots singles) :
    gen.code roots = .ok ("\n".intercalate (singles.filter (· ≠ ""))) := by
  suffices split : (∀ root ∈ roots, gen.precheck [root] = .ok ()) ∧ ∃ texts,
      List.Forall₂ gen.Gives roots texts ∧ (∀ text ∈ texts, IsBlocks text) ∧
        singles = texts.map tidied by
    obtain ⟨accepted, texts, gives, blocks, rfl⟩ := split
    rw [code_eq_ok_iff rests, ← tidied_intercalate_nonempty blocks]
    exact ⟨(precheck_iff_each nonempty).mpr accepted, texts, gives, rfl⟩
  clear nonempty
  induction each with
  | nil => exact ⟨by simp, [], .nil, by simp, rfl⟩
  | cons here _ inductionHypothesis =>
      obtain ⟨restsHere, restsLater⟩ := List.forall_mem_cons.mp rests
      obtain ⟨accepted, texts, gives, blocks, rfl⟩ := inductionHypothesis restsLater
      obtain ⟨acceptedHere, text, givesHere, rfl⟩ := (code_singleton_eq_ok_iff restsHere).mp here
      have block : IsBlocks text := by
        rcases restsHere.ok_or_error with ⟨given, ran, block⟩ | ⟨e, _, failed⟩
        · cases givesHere.symm.trans ran
          exact block
        · cases givesHere.symm.trans failed
      exact ⟨List.forall_mem_cons.mpr ⟨acceptedHere, accepted⟩, text :: texts,
        .cons givesHere gives, List.forall_mem_cons.mpr ⟨block, blocks⟩, rfl⟩

theorem exists_code_of_each (rests : ∀ root ∈ roots, (gen.root root).Rests gen.begun IsBlocks)
    (nonempty : roots ≠ []) {code : String} (ran : gen.code roots = .ok code) :
    ∀ root ∈ roots, ∃ single, gen.code [root] = .ok single := by
  obtain ⟨accepted, texts, gives, _⟩ := (code_eq_ok_iff rests).mp ran
  intro root listed
  obtain ⟨text, given⟩ := exists_forall₂_iff.mp ⟨texts, gives⟩ root listed
  exact ⟨tidied text, (code_singleton_eq_ok_iff (rests root listed)).mpr
    ⟨(precheck_iff_each nonempty).mp accepted root listed, text, given, rfl⟩⟩

end Generator

/-- The built-in handlers only read, without a time scale and where variables are declared. -/
theorem onlyReads_builtin {g : Graph} {roots : List NodeId} {config : Config}
    (timeless : config.timescale = none) (declared : g.DeclaresVariables roots) :
    (Generator.mk g .builtin config).OnlyReads roots where
  isLocal := HandlerTable.builtin_isLocal
  makes kind handler registered := (HandlerTable.builtin_inStep kind handler registered).makesBlocks
  readOnly id node _ reached found registered :=
    Handlers.isReadOnly_of_mem_builtin ((Generator.mk g .builtin config).site id node) timeless
      (HandlerTable.mem_builtin registered) fun name => declared id node name reached found

/-- Without a time scale, and with all variables in the workspace, roots are generated together
exactly if each can be generated alone. The text is that of each root, without the empty ones, one
after the other with a blank line between. -/
theorem generate_rootwise {g : Graph} {roots : List NodeId} {config : Config}
    (nonempty : roots ≠ []) (timeless : config.timescale = none)
    (declared : g.DeclaresVariables roots) :
    ((∃ text, generate g roots config = .ok text) ↔
      ∀ root ∈ roots, ∃ single, generate g [root] config = .ok single) ∧
    ∀ singles, List.Forall₂ (fun root single => generate g [root] config = .ok single) roots singles →
      generate g roots config = .ok ("\n".intercalate (singles.filter (· ≠ ""))) := by
  have settled := (Generator.mk g .builtin config).isSettled_named (.initial config)
  have rests : ∀ root ∈ roots, ((Generator.mk g .builtin config).root root).Rests
      (Generator.mk g .builtin config).begun IsBlocks := fun root listed =>
    Generator.root_rests (onlyReads_builtin timeless declared) settled ⟨root, listed, .refl⟩
  have together : ∀ singles,
      List.Forall₂ (fun root single => generate g [root] config = .ok single) roots singles →
        generate g roots config = .ok ("\n".intercalate (singles.filter (· ≠ ""))) :=
    fun singles each => Generator.code_of_each rests nonempty each
  refine ⟨⟨?_, ?_⟩, together⟩
  · rintro ⟨text, ran⟩
    exact Generator.exists_code_of_each rests nonempty ran
  · intro each
    obtain ⟨singles, all⟩ := exists_forall₂_iff.mpr each
    exact ⟨_, together singles all⟩

/-- An assignment, a disabled bit, and the assigned variable on its own. -/
def driven : Graph where
  nodes := #[
    { Node.blank "assign_block" .statement with fields := .ofList [("var", .text "y")] },
    { Node.blank "one" .expression with enabled := false },
    { Node.blank "variables_get" .expression with fields := .ofList [("VAR", .text "y")] }]
  vars := [⟨"y", "y"⟩]

theorem driven_rootwise :
    driven.DeclaresVariables [0, 1, 2] ∧
      generate driven [0] .standard = .ok "assign y = X;\n" ∧
      generate driven [1] .standard = .ok "" ∧ generate driven [2] .standard = .ok "y;\n" ∧
      generate driven [0, 1, 2] .standard = .ok "assign y = X;\n\ny;\n" := by
  have declared : driven.DeclaresVariables [0, 1, 2] := by
    apply Graph.declaresVariables_of_forall
    decide
  have first : generate driven [0] .standard = .ok "assign y = X;\n" := by cbv
  have second : generate driven [1] .standard = .ok "" := by cbv
  have third : generate driven [2] .standard = .ok "y;\n" := by cbv
  have together := (generate_rootwise (by decide) rfl declared).2 _
    (.cons first (.cons second (.cons third .nil)))
  exact ⟨declared, first, second, third, together⟩

end BlockVerilog
