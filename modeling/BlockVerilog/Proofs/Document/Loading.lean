import BlockVerilog.Document.Basic
import BlockVerilog.Proofs.OrderedMap
import BlockVerilog.Proofs.Related

/-!
What a document is resolved to.

Resolution goes through the references of a document in order and stops at the first that names no
node. `Resolves` says this of a step together with its result; the steps compose by `resolves_bind`
and `resolves_mapM`.
-/

namespace BlockVerilog

/-- A place in a document that names a node. -/
structure Reference where
  owner : String
  slot : String
  target : String

/-- What the entries of a node refer to, in order. -/
def SlotEntry.references (owner : String) (entries : List SlotEntry) : List Reference :=
  entries.flatMap fun entry => entry.2.toList.map (⟨owner, entry.1, ·⟩)

/-- The references of a node: values, statements, then `next`. -/
def DocumentNode.references (node : DocumentNode) : List Reference :=
  SlotEntry.references node.id node.values ++ SlotEntry.references node.id node.statements ++
    node.next.toList.map (⟨node.id, "next", ·⟩)

namespace Document

def ids (d : Document) : List String := d.nodes.map DocumentNode.id

/-- The references of a document: those of its nodes in order, then its roots. -/
def references (d : Document) : List Reference :=
  d.nodes.flatMap DocumentNode.references ++ (d.roots.getD []).map (⟨"roots", "roots", ·⟩)

/-- The node at a position has an id. -/
def IsAt (d : Document) (id : String) (position : NodeId) : Prop :=
  d.ids[position]? = some id

theorem IsAt.mem {d : Document} {id : String} {position : NodeId} (isAt : d.IsAt id position) : id ∈ d.ids :=
  List.mem_of_getElem? isAt

theorem IsAt.unique {d : Document} (distinct : d.ids.Nodup) {id : String} {first second : NodeId}
    (isAt : d.IsAt id first) (alsoAt : d.IsAt id second) : first = second := by
  obtain ⟨inside, _⟩ := List.getElem?_eq_some_iff.mp isAt
  exact (List.getElem?_inj inside distinct).mp (Eq.trans isAt (Eq.symm alsoAt))

/-- Slots as entries declare them: each name once, where it occurs first, with the target it has
where it occurs last. -/
structure DeclaresSlots (d : Document) (entries : List SlotEntry) (slots : Slots) : Prop where
  names : slots.keys = (entries.map Prod.fst).eraseDups
  targets : ∀ before name target after, entries = before ++ (name, target) :: after →
    name ∉ after.map Prod.fst →
      ∃ held, slots.get? name = some held ∧ Option.Rel d.IsAt target held

/-- A node as the node of a document describes it. -/
structure DeclaresNode (d : Document) (position : NodeId) (declared : DocumentNode) (node : Node) :
    Prop where
  key : node.key = if declared.id = "" then Graph.defaultKey position else declared.id
  kind : node.kind = declared.kind
  shape : node.shape = .ofOutput declared.output
  fields : node.fields = declared.fields
  comment : node.comment = declared.comment.getD ""
  enabled : node.enabled = declared.enabled
  values : d.DeclaresSlots declared.values node.values
  statements : d.DeclaresSlots declared.statements node.statements
  next : Option.Rel d.IsAt declared.next node.next

/-- A program as a document describes it. -/
structure Declares (d : Document) (p : Program) : Prop where
  vars : p.graph.vars = d.vars
  size : p.graph.size = d.nodes.length
  nodes : ∀ position declared, d.nodes[position]? = some declared →
    ∃ node, p.graph.get? position = some node ∧ d.DeclaresNode position declared node
  roots : ∀ listed, d.roots = some listed → List.Forall₂ d.IsAt listed p.roots
  defaultRoots : d.roots = none → p.roots = p.graph.defaultRoots

theorem Declares.lt_size_of_isAt {d : Document} {p : Program} (declares : d.Declares p) {id : String} {position : NodeId}
    (isAt : d.IsAt id position) : position < p.graph.size := by
  obtain ⟨inside, _⟩ := List.getElem?_eq_some_iff.mp isAt
  rw [declares.size]
  simpa [ids] using inside

/-- The first of some references that names no node is reported. -/
def ReportsFirst (d : Document) (references : List Reference) (defect : Defect) : Prop :=
  ∃ before found after, references = before ++ found :: after ∧
    (∀ earlier ∈ before, earlier.target ∈ d.ids) ∧ found.target ∉ d.ids ∧
      defect = .danglingReference found.owner found.slot found.target

/-- What keeps a document from describing a program, the first of everything that does: an id that
occurred before or, if there is none, a reference that names no node. -/
inductive Refused (d : Document) : Defect → Prop
  | duplicate (before after : List String) (id : String) (split : d.ids = before ++ id :: after)
      (distinct : before.Nodup) (again : id ∈ before) : Refused d (.duplicateId id)
  | dangling (distinct : d.ids.Nodup) {defect : Defect}
      (first : d.ReportsFirst d.references defect) : Refused d defect

/-- A step of resolution goes through these references. It gives a result with `post` if all of them
name nodes, and else reports the first that does not. -/
def Resolves {α : Type} (d : Document) (references : List Reference) (post : α → Prop) :
    Except Defect α → Prop
  | .ok a => (∀ reference ∈ references, reference.target ∈ d.ids) ∧ post a
  | .error defect => d.ReportsFirst references defect

variable {d : Document} {α β : Type}

section

variable {references more : List Reference} {post : α → Prop} {postNext : β → Prop}

theorem resolves_ok {a : α} (holds : post a) : d.Resolves [] post (.ok a) := ⟨by simp, holds⟩

theorem ReportsFirst.append_right {defect : Defect} (first : d.ReportsFirst references defect) :
    d.ReportsFirst (references ++ more) defect := by
  obtain ⟨before, found, after, rfl, rest⟩ := first
  exact ⟨before, found, after ++ more, by simp, rest⟩

theorem ReportsFirst.append_left {defect : Defect}
    (known : ∀ reference ∈ references, reference.target ∈ d.ids)
    (first : d.ReportsFirst more defect) : d.ReportsFirst (references ++ more) defect := by
  obtain ⟨before, found, after, rfl, knownBefore, rest⟩ := first
  exact ⟨references ++ before, found, after, by simp,
    List.forall_mem_append.mpr ⟨known, knownBefore⟩, rest⟩

theorem resolves_bind {c : Except Defect α} {f : α → Except Defect β}
    (first : d.Resolves references post c)
    (next : ∀ a, post a → d.Resolves more postNext (f a)) :
    d.Resolves (references ++ more) postNext (c >>= f) := by
  cases c with
  | error defect => exact ReportsFirst.append_right first
  | ok a =>
      obtain ⟨known, holds⟩ := first
      have second := next a holds
      change d.Resolves _ _ (f a)
      revert second
      cases f a with
      | error defect => exact ReportsFirst.append_left known
      | ok b => exact fun second => ⟨List.forall_mem_append.mpr ⟨known, second.1⟩, second.2⟩

theorem Resolves.mono {postAfter : α → Prop} {c : Except Defect α}
    (resolves : d.Resolves references post c) (weaken : ∀ a, post a → postAfter a) :
    d.Resolves references postAfter c := by
  cases c with
  | error defect => exact resolves
  | ok a => exact ⟨resolves.1, weaken a resolves.2⟩

theorem Resolves.map {c : Except Defect α} (resolves : d.Resolves references post c) (f : α → β) :
    d.Resolves references (fun b => ∃ a, post a ∧ b = f a) (c.map f) := by
  cases c with
  | error defect => exact resolves
  | ok a => exact ⟨resolves.1, a, resolves.2, rfl⟩

theorem resolves_mapM {γ : Type} {related : γ → α → Prop} {step : γ → Except Defect α}
    {refers : γ → List Reference} {items : List γ}
    (each : ∀ item ∈ items, d.Resolves (refers item) (related item) (step item)) :
    d.Resolves (items.flatMap refers) (List.Forall₂ related items) (items.mapM step) := by
  induction items with
  | nil => exact resolves_ok .nil
  | cons item items inductionHypothesis =>
      rw [List.forall_mem_cons] at each
      rw [List.mapM_cons, List.flatMap_cons]
      refine resolves_bind each.1 fun a here => ?_
      have rest := resolves_bind (inductionHypothesis each.2) fun others later =>
        resolves_ok (d := d) (List.Forall₂.cons here later)
      rwa [List.append_nil] at rest

end

/-! ### Steps -/

theorem position?_eq_none_iff {id : String} : d.position? id = none ↔ id ∉ d.ids := by
  simp [position?, ids, List.findIdx?_eq_none_iff]

theorem isAt_of_position? {id : String} {position : NodeId}
    (found : d.position? id = some position) : d.IsAt id position := by
  obtain ⟨inside, here, _⟩ := List.findIdx?_eq_some_iff_getElem.mp found
  rw [IsAt, ids, List.getElem?_map, List.getElem?_eq_getElem inside, Option.map_some]
  exact congrArg some (of_decide_eq_true here)

theorem resolve_resolves (owner slot target : String) :
    d.Resolves [⟨owner, slot, target⟩] (d.IsAt target) (d.resolve owner slot target) := by
  unfold resolve
  cases found : d.position? target with
  | none => exact ⟨[], _, [], rfl, by simp, position?_eq_none_iff.mp found, rfl⟩
  | some position =>
      have known : target ∈ d.ids := by
        by_contra absent
        rw [position?_eq_none_iff.mpr absent] at found
        cases found
      exact ⟨List.forall_mem_singleton.mpr known, isAt_of_position? found⟩

theorem resolveOptional_resolves (owner slot : String) (target : Option String) :
    d.Resolves (target.toList.map (⟨owner, slot, ·⟩)) (Option.Rel d.IsAt target)
      (d.resolveOptional owner slot target) := by
  cases target with
  | none => exact resolves_ok .none
  | some target =>
      refine ((resolve_resolves owner slot target).map some).mono ?_
      rintro _ ⟨position, isAt, rfl⟩
      exact .some isAt

/-- An entry of a slot, with its target resolved. -/
def ResolvesEntry (d : Document) (entry : SlotEntry) (resolved : String × Option NodeId) : Prop :=
  resolved.1 = entry.1 ∧ Option.Rel d.IsAt entry.2 resolved.2

theorem insertEntries_resolves (owner : String) (entries : List SlotEntry) (start : Slots) :
    d.Resolves (SlotEntry.references owner entries)
      (fun slots => ∃ resolved, List.Forall₂ d.ResolvesEntry entries resolved ∧
        slots = start.insertAll resolved)
      (entries.foldlM (fun slots entry =>
        (d.resolveOptional owner entry.1 entry.2).map (slots.insert entry.1 ·)) start) := by
  induction entries generalizing start with
  | nil => exact resolves_ok ⟨[], .nil, rfl⟩
  | cons entry entries inductionHypothesis =>
      have first : d.Resolves _ _ _ := (resolveOptional_resolves owner entry.1 entry.2).map
        (OrderedMap.insert start entry.1 ·)
      rw [List.foldlM_cons, SlotEntry.references, List.flatMap_cons]
      refine resolves_bind first ?_
      rintro _ ⟨held, isHeld, rfl⟩
      refine (inductionHypothesis _).mono ?_
      rintro _ ⟨resolved, each, rfl⟩
      exact ⟨(entry.1, held) :: resolved, .cons ⟨rfl, isHeld⟩ each, rfl⟩

theorem map_fst_of_resolvesEntry {entries : List SlotEntry}
    {resolved : List (String × Option NodeId)}
    (each : List.Forall₂ d.ResolvesEntry entries resolved) :
    resolved.map Prod.fst = entries.map Prod.fst := by
  induction each with
  | nil => rfl
  | cons here _ inductionHypothesis =>
      rw [List.map_cons, List.map_cons, here.1, inductionHypothesis]

/-- Resolved entries, put into slots one after the other, are the slots that the entries declare. -/
theorem declaresSlots_ofList {entries : List SlotEntry} {resolved : List (String × Option NodeId)}
    (each : List.Forall₂ d.ResolvesEntry entries resolved) :
    d.DeclaresSlots entries (OrderedMap.ofList resolved) := by
  constructor
  · rw [OrderedMap.keys_ofList, map_fst_of_resolvesEntry each]
  · rintro before name target after rfl last
    obtain ⟨_, ⟨_, held⟩, otherAfter, rfl, ⟨rfl, isHeld⟩, later⟩ := exists_split_of_forall₂ each
    rw [← map_fst_of_resolvesEntry later] at last
    exact ⟨held, OrderedMap.get?_ofList_of_last last, isHeld⟩

theorem resolveSlots_resolves (owner : String) (entries : List SlotEntry) :
    d.Resolves (SlotEntry.references owner entries) (d.DeclaresSlots entries)
      (d.resolveSlots owner entries) := by
  refine (insertEntries_resolves owner entries ∅).mono ?_
  rintro _ ⟨resolved, each, rfl⟩
  exact declaresSlots_ofList each

theorem resolveNode_resolves (position : NodeId) (node : DocumentNode) :
    d.Resolves node.references (d.DeclaresNode position node) (d.resolveNode position node) := by
  unfold resolveNode DocumentNode.references
  rw [List.append_assoc]
  refine resolves_bind (resolveSlots_resolves node.id node.values) fun values hasValues =>
    resolves_bind (resolveSlots_resolves node.id node.statements) fun statements hasStatements => ?_
  rw [← List.append_nil (List.map _ _)]
  refine resolves_bind (resolveOptional_resolves node.id "next" node.next) fun next hasNext => ?_
  exact resolves_ok ⟨rfl, rfl, rfl, rfl, rfl, rfl, hasValues, hasStatements, hasNext⟩

/-! ### Documents -/

theorem firstRepeated_spec (seen ids : List String) :
    match firstRepeated seen ids with
    | none => ids.Nodup ∧ ∀ id ∈ ids, id ∉ seen
    | some id => ∃ before after, ids = before ++ id :: after ∧ before.Nodup ∧
        (∀ earlier ∈ before, earlier ∉ seen) ∧ (id ∈ before ∨ id ∈ seen) := by
  induction ids generalizing seen with
  | nil => exact ⟨List.nodup_nil, by simp⟩
  | cons id ids inductionHypothesis =>
      have rest := inductionHypothesis (id :: seen)
      unfold firstRepeated
      by_cases known : id ∈ seen
      · rw [if_pos known]
        exact ⟨[], ids, rfl, List.nodup_nil, by simp, .inr known⟩
      · rw [if_neg known]
        revert rest
        cases firstRepeated (id :: seen) ids with
        | none =>
            rintro ⟨distinct, fresh⟩
            simp only [List.mem_cons, not_or] at fresh
            refine ⟨List.nodup_cons.mpr ⟨fun again => (fresh id again).1 rfl, distinct⟩,
              List.forall_mem_cons.mpr ⟨known, fun other listed => (fresh other listed).2⟩⟩
        | some repeated =>
            rintro ⟨before, after, rfl, distinct, fresh, again⟩
            simp only [List.mem_cons, not_or] at fresh again
            refine ⟨id :: before, after, rfl,
              List.nodup_cons.mpr ⟨fun here => (fresh id here).1 rfl, distinct⟩,
              List.forall_mem_cons.mpr ⟨known, fun other listed => (fresh other listed).2⟩, ?_⟩
            rcases again with before | rfl | seen
            · exact .inl (List.mem_cons_of_mem _ before)
            · exact .inl List.mem_cons_self
            · exact .inr seen

/-- Nodes resolved in order stand at the positions of those that declare them. -/
theorem declares_nodes {nodes : List Node} (each : List.Forall₂
      (fun entry node => d.DeclaresNode entry.2 entry.1 node) d.nodes.zipIdx nodes) :
    nodes.length = d.nodes.length ∧ ∀ position declared, d.nodes[position]? = some declared →
      ∃ node, nodes[position]? = some node ∧ d.DeclaresNode position declared node := by
  obtain ⟨lengths, pairs⟩ := List.forall₂_iff_get.mp each
  rw [List.length_zipIdx] at lengths
  refine ⟨lengths.symm, fun position declared found => ?_⟩
  obtain ⟨inside, rfl⟩ := List.getElem?_eq_some_iff.mp found
  have here := pairs position (by simpa using inside) (by omega)
  rw [List.get_eq_getElem, List.get_eq_getElem, List.getElem_zipIdx, Nat.zero_add] at here
  exact ⟨_, List.getElem?_eq_getElem (by omega), here⟩

/-- What follows once the ids are known to be distinct. -/
theorem toProgram_of_distinct (distinct : firstRepeated [] d.ids = none) :
    d.toProgram = (d.nodes.zipIdx.mapM fun entry => d.resolveNode entry.2 entry.1) >>= fun nodes =>
      match d.roots with
      | none => .ok ⟨⟨nodes.toArray, d.vars⟩, Graph.defaultRoots ⟨nodes.toArray, d.vars⟩⟩
      | some ids => ids.mapM (d.resolve "roots" "roots") >>= fun roots =>
          .ok ⟨⟨nodes.toArray, d.vars⟩, roots⟩ := by
  unfold ids at distinct
  unfold toProgram
  rw [distinct]
  rfl

theorem toProgram_resolves (distinct : firstRepeated [] d.ids = none) :
    d.Resolves d.references d.Declares d.toProgram := by
  have nodeReferences : d.nodes.flatMap DocumentNode.references =
      d.nodes.zipIdx.flatMap fun entry => entry.1.references := by
    calc d.nodes.flatMap DocumentNode.references
        = (d.nodes.zipIdx.map Prod.fst).flatMap DocumentNode.references := by
          rw [List.zipIdx_map_fst]
      _ = _ := List.flatMap_map ..
  rw [toProgram_of_distinct distinct, references, nodeReferences]
  refine resolves_bind (resolves_mapM fun entry _ => resolveNode_resolves entry.2 entry.1)
    fun nodes each => ?_
  obtain ⟨size, declared⟩ := declares_nodes each
  have graphNodes : ∀ position declaration, d.nodes[position]? = some declaration →
      ∃ node, Graph.get? ⟨nodes.toArray, d.vars⟩ position = some node ∧
        d.DeclaresNode position declaration node := by
    simpa only [Graph.get?, List.getElem?_toArray] using declared
  cases roots : d.roots with
  | none => exact resolves_ok ⟨rfl, size, graphNodes, by simp [roots], fun _ => rfl⟩
  | some ids =>
      have listed : d.Resolves (ids.flatMap fun id => [⟨"roots", "roots", id⟩])
          (List.Forall₂ d.IsAt ids) (ids.mapM (d.resolve "roots" "roots")) :=
        resolves_mapM fun id _ => resolve_resolves "roots" "roots" id
      rw [← List.map_eq_flatMap] at listed
      rw [Option.getD_some, ← List.append_nil (List.map _ ids)]
      refine resolves_bind listed fun positions areAt => resolves_ok ?_
      exact ⟨rfl, size, graphNodes, by simpa [roots] using areAt, by simp [roots]⟩

theorem toProgram_spec (d : Document) :
    match d.toProgram with
    | .ok p => d.ids.Nodup ∧ (∀ reference ∈ d.references, reference.target ∈ d.ids) ∧ d.Declares p
    | .error defect => d.Refused defect := by
  have repeats := firstRepeated_spec [] d.ids
  cases repeated : firstRepeated [] d.ids with
  | some id =>
      rw [repeated] at repeats
      obtain ⟨before, after, split, distinct, _, again⟩ := repeats
      have refused : d.toProgram = .error (.duplicateId id) := by
        unfold ids at repeated
        unfold toProgram
        rw [repeated]
        rfl
      rw [refused]
      exact .duplicate before after id split distinct (again.resolve_right List.not_mem_nil)
  | none =>
      rw [repeated] at repeats
      have resolves := toProgram_resolves repeated
      revert resolves
      cases d.toProgram with
      | error defect => exact fun first => .dangling repeats.1 first
      | ok p => exact fun loaded => ⟨repeats.1, loaded.1, loaded.2⟩

theorem Refused.not_sound {defect : Defect} (refused : d.Refused defect) :
    ¬ (d.ids.Nodup ∧ ∀ reference ∈ d.references, reference.target ∈ d.ids) := by
  rintro ⟨distinct, known⟩
  cases refused with
  | duplicate before after id split _ again =>
      rw [split, List.nodup_append] at distinct
      exact distinct.2.2 id again id List.mem_cons_self rfl
  | dangling _ first =>
      obtain ⟨before, found, after, split, _, unknown, _⟩ := first
      exact unknown (known found (split ▸ List.mem_append_right before List.mem_cons_self))

/-- A document describes a program exactly if its ids are distinct and every reference names one of
them. The program is as declared, and of what is wrong with another document the first is
reported. -/
theorem toProgram_faithful (d : Document) :
    ((∃ p, d.toProgram = .ok p) ↔
      d.ids.Nodup ∧ ∀ reference ∈ d.references, reference.target ∈ d.ids) ∧
    (∀ p, d.toProgram = .ok p → d.Declares p) ∧
    ∀ defect, d.toProgram = .error defect → d.Refused defect := by
  have spec := d.toProgram_spec
  revert spec
  cases d.toProgram with
  | error defect =>
      intro refused
      refine ⟨⟨by simp, fun sound => absurd sound refused.not_sound⟩, by simp, ?_⟩
      simpa using refused
  | ok p =>
      rintro ⟨distinct, known, declares⟩
      refine ⟨⟨fun _ => ⟨distinct, known⟩, fun _ => ⟨p, rfl⟩⟩, ?_, by simp⟩
      simpa using declares

end Document

end BlockVerilog
