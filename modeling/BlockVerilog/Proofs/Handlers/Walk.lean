import BlockVerilog.Proofs.Handlers.Preorder

/-!
The check of a handler table finds the first offender of a recursive walk.

`Walks` is the walk in preorder that visits every node once, in any graph. The check takes nodes off
a stack instead; since it puts what lies behind a node in front of what waits, it looks at the nodes
in the order of the walk. `turn` is one turn of that loop, which ends in cyclic graphs as well.
-/

namespace BlockVerilog.HandlerTable

open Relation BlockVerilog.Graph Loop

/-! ### The walk -/

/-- The recursive walk from some nodes, and what it visits: each node that was not `seen` yet, then
all that lies behind it, then the nodes that are left. -/
inductive Walks (g : Graph) : (seen ids visited : List NodeId) → Prop
  | done {seen : List NodeId} : Walks g seen [] []
  | known {seen rest visited : List NodeId} {id : NodeId} (before : id ∈ seen)
      (walks : Walks g seen rest visited) : Walks g seen (id :: rest) visited
  | outside {seen rest visited : List NodeId} {id : NodeId} (absent : g.get? id = none)
      (walks : Walks g seen rest visited) : Walks g seen (id :: rest) visited
  | visit {seen rest below later : List NodeId} {id : NodeId} {node : Node} (fresh : id ∉ seen)
      (found : g.get? id = some node) (inside : Walks g (seen ++ [id]) (follow node) below)
      (walks : Walks g (seen ++ id :: below) rest later) :
      Walks g seen (id :: rest) (id :: below ++ later)

namespace Walks

variable {g : Graph} {seen ids rest visited : List NodeId}

theorem unique {other : List NodeId} (walks : Walks g seen ids visited)
    (again : Walks g seen ids other) : visited = other := by
  induction walks generalizing other with
  | done =>
      cases again
      rfl
  | known before _ inductionHypothesis =>
      cases again with
      | known _ again => exact inductionHypothesis again
      | outside _ again => exact inductionHypothesis again
      | visit fresh => exact absurd before fresh
  | outside absent _ inductionHypothesis =>
      cases again with
      | known _ again => exact inductionHypothesis again
      | outside _ again => exact inductionHypothesis again
      | visit _ found => exact absurd (absent.symm.trans found) (by simp)
  | visit fresh found _ _ first second =>
      cases again with
      | known before => exact absurd before fresh
      | outside absent => exact absurd (absent.symm.trans found) (by simp)
      | visit _ foundAgain inside again =>
          obtain rfl := Option.some.inj (found.symm.trans foundAgain)
          obtain rfl := first inside
          rw [second again]

/-- A walk from some nodes and others is one from the first, and one from the others that has seen
what the first visited. -/
theorem split (walks : Walks g seen (ids ++ rest) visited) :
    ∃ first later, visited = first ++ later ∧ Walks g seen ids first ∧
      Walks g (seen ++ first) rest later := by
  induction ids generalizing seen visited with
  | nil => exact ⟨[], visited, rfl, .done, by simpa using walks⟩
  | cons id ids inductionHypothesis =>
      cases walks with
      | known before walks =>
          obtain ⟨first, later, parts, front, back⟩ := inductionHypothesis walks
          exact ⟨first, later, parts, .known before front, back⟩
      | outside absent walks =>
          obtain ⟨first, later, parts, front, back⟩ := inductionHypothesis walks
          exact ⟨first, later, parts, .outside absent front, back⟩
      | @visit _ _ below _ _ _ fresh found inside walks =>
          obtain ⟨first, later, rfl, front, back⟩ := inductionHypothesis walks
          exact ⟨id :: below ++ first, later, by simp, .visit fresh found inside front,
            by simpa using back⟩

/-- What lies behind a node may as well be walked together with what waits. -/
theorem visit_together {id : NodeId} {node : Node} (fresh : id ∉ seen)
    (found : g.get? id = some node)
    (walks : Walks g (seen ++ [id]) (follow node ++ rest) visited) :
    Walks g seen (id :: rest) (id :: visited) := by
  obtain ⟨below, later, rfl, inside, walks⟩ := walks.split
  exact .visit fresh found inside (by simpa using walks)

theorem nodup (walks : Walks g seen ids visited) :
    visited.Nodup ∧ ∀ id ∈ visited, id ∉ seen := by
  induction walks with
  | done => simp
  | known _ _ inductionHypothesis => exact inductionHypothesis
  | outside _ _ inductionHypothesis => exact inductionHypothesis
  | @visit seen _ below later id _ fresh _ _ _ first second =>
      obtain ⟨belowNodup, belowFresh⟩ := first
      obtain ⟨laterNodup, laterFresh⟩ := second
      have apart : ∀ other ∈ later, other ∉ seen ∧ other ∉ id :: below := fun other listed =>
        not_or.mp (List.mem_append.not.mp (laterFresh other listed))
      have notBelow : id ∉ below := fun listed =>
        belowFresh id listed (List.mem_append_right _ (List.mem_singleton_self id))
      refine ⟨List.nodup_append'.mpr ⟨List.nodup_cons.mpr ⟨notBelow, belowNodup⟩, laterNodup,
        fun other early late => (apart other late).2 early⟩, ?_⟩
      rintro other listed known
      rcases List.mem_append.mp listed with early | late
      · rcases List.mem_cons.mp early with rfl | inside
        · exact fresh known
        · exact belowFresh other inside (List.mem_append_left _ known)
      · exact (apart other late).1 known

/-- Whatever is visited is in the graph, and is reached from where the walk begins. -/
theorem reached (walks : Walks g seen ids visited) :
    ∀ id ∈ visited, id < g.size ∧ g.IsLive ids id := by
  induction walks with
  | done => simp
  | known _ _ inductionHypothesis =>
      intro id listed
      obtain ⟨inside, root, begins, path⟩ := inductionHypothesis id listed
      exact ⟨inside, root, List.mem_cons_of_mem _ begins, path⟩
  | outside _ _ inductionHypothesis =>
      intro id listed
      obtain ⟨inside, root, begins, path⟩ := inductionHypothesis id listed
      exact ⟨inside, root, List.mem_cons_of_mem _ begins, path⟩
  | @visit _ rest below later id node _ found _ _ first second =>
      intro other listed
      rcases List.mem_append.mp listed with early | late
      · rcases List.mem_cons.mp early with rfl | inside
        · exact ⟨lt_size_of_get?_eq_some found, isLive_of_mem List.mem_cons_self⟩
        · obtain ⟨inGraph, source, behind, path⟩ := first other inside
          exact ⟨inGraph, id, List.mem_cons_self, path.head ⟨node, found, behind⟩⟩
      · obtain ⟨inGraph, root, begins, path⟩ := second other late
        exact ⟨inGraph, root, List.mem_cons_of_mem _ begins, path⟩

/-- A walk leaves out nothing that it begins at or that follows a node that it visits. -/
theorem closed (walks : Walks g seen ids visited) :
    (∀ id ∈ ids, id < g.size → id ∈ seen ++ visited) ∧
      ∀ source ∈ visited, ∀ target, g.Follows source target → target < g.size →
        target ∈ seen ++ visited := by
  induction walks with
  | done => simp
  | known before _ inductionHypothesis =>
      refine ⟨List.forall_mem_cons.mpr ⟨fun _ => ?_, inductionHypothesis.1⟩, inductionHypothesis.2⟩
      exact List.mem_append_left _ before
  | outside absent _ inductionHypothesis =>
      refine ⟨List.forall_mem_cons.mpr ⟨fun inside => ?_, inductionHypothesis.1⟩,
        inductionHypothesis.2⟩
      exact absurd (absent.symm.trans (get?_eq_some inside)) (by simp)
  | @visit seen rest below later id node _ found _ _ first second =>
      have widen : ∀ target, target ∈ seen ++ [id] ++ below →
          target ∈ seen ++ (id :: below ++ later) := by
        intro target listed
        simp only [List.mem_append, List.mem_cons] at listed ⊢
        tauto
      refine ⟨List.forall_mem_cons.mpr ⟨fun _ => by simp, ?_⟩, ?_⟩
      · simpa using second.1
      · intro source listed target follows inside
        rcases List.mem_append.mp listed with early | late
        · rcases List.mem_cons.mp early with rfl | behind
          · obtain ⟨node', foundAgain, member⟩ := follows
            obtain rfl := Option.some.inj (found.symm.trans foundAgain)
            exact widen target (first.1 target member inside)
          · exact widen target (first.2 source behind target follows inside)
        · simpa using second.2 source late target follows inside

/-- A walk visits the nodes of the graph that are live, each once. -/
theorem mem_iff {roots : List NodeId} (walks : Walks g [] roots visited) {id : NodeId} :
    id ∈ visited ↔ id < g.size ∧ g.IsLive roots id := by
  constructor
  · exact walks.reached id
  · rintro ⟨inside, root, listed, path⟩
    induction path with
    | refl => simpa using walks.closed.1 root listed inside
    | @tail source target _ follows inductionHypothesis =>
        have before := inductionHypothesis follows.links.source_lt_size
        simpa using walks.closed.2 source before target follows inside

end Walks

/-- The nodes of a graph that were not seen yet, each once. -/
structure IsRest (g : Graph) (seen unseen : List NodeId) : Prop where
  nodup : unseen.Nodup
  mem_iff : ∀ id, id ∈ unseen ↔ id < g.size ∧ id ∉ seen

namespace IsRest

variable {g : Graph} {seen unseen : List NodeId} {id : NodeId}

theorem start (g : Graph) : IsRest g [] g.ids where
  nodup := List.nodup_range
  mem_iff := by simp

theorem see (rest : IsRest g seen unseen) (id : NodeId) :
    IsRest g (seen ++ [id]) (unseen.erase id) where
  nodup := rest.nodup.erase id
  mem_iff other := by
    rw [rest.nodup.mem_erase_iff, rest.mem_iff, List.mem_append, List.mem_singleton]
    tauto

end IsRest

theorem exists_walks {g : Graph} {seen unseen : List NodeId} (isRest : IsRest g seen unseen)
    (work : List NodeId) : ∃ visited, Walks g seen work visited := by
  match work with
  | [] => exact ⟨[], .done⟩
  | id :: work =>
      by_cases waiting : id ∈ unseen
      · obtain ⟨inside, fresh⟩ := (isRest.mem_iff id).mp waiting
        have found := get?_eq_some inside
        have _fewer := length_erase_lt waiting
        obtain ⟨visited, walks⟩ := exists_walks (isRest.see id) (follow (g.nodes[id]) ++ work)
        exact ⟨id :: visited, walks.visit_together fresh found⟩
      · obtain ⟨visited, walks⟩ := exists_walks isRest work
        rw [isRest.mem_iff, not_and_not_right] at waiting
        by_cases inside : id < g.size
        · exact ⟨visited, .known (waiting inside) walks⟩
        · exact ⟨visited, .outside (Array.getElem?_eq_none (Nat.not_lt.mp inside)) walks⟩
termination_by (unseen.length, work.length)

/-! ### The check -/

/-- What a table holds against the node of an id, if there is one. -/
def faultOf? (table : HandlerTable) (g : Graph) (id : NodeId) : Option PassError :=
  (g.get? id).bind table.faultAt?

/-- A check that found this first. -/
def verdict : Option PassError → Except PassError Unit
  | none => .ok ()
  | some e => .error e

/-- One turn of the check: a node is taken off the stack, and what lies behind it is put on. There
is no turn after a fault, nor with nothing on the stack. -/
def turn (table : HandlerTable) (g : Graph) :
    List NodeId × List NodeId → Option (List NodeId × List NodeId)
  | (_, []) => none
  | (seen, id :: stack) =>
      if id ∈ seen then some (seen, stack)
      else
        match g.get? id with
        | none => some (seen ++ [id], stack)
        | some node =>
            if table.faultAt? node = none then some (seen ++ [id], follow node ++ stack) else none

/-- What the check says when it has no more turns: the fault of the node on top of its stack. -/
def verdictAt (table : HandlerTable) (g : Graph) (state : List NodeId × List NodeId) :
    Except PassError Unit :=
  verdict (state.2.head?.bind (table.faultOf? g))

variable {table : HandlerTable} {g : Graph} {seen unseen work visited : List NodeId}

theorem faultOf?_eq {id : NodeId} {node : Node} (found : g.get? id = some node) :
    table.faultOf? g id = table.faultAt? node := by
  rw [faultOf?, found, Option.bind_some]

/-- The check looks at the nodes that a walk visits, in their order. -/
theorem checkFrom_eq_verdict (isRest : IsRest g seen unseen) (walks : Walks g seen work visited) :
    table.checkFrom g unseen work = verdict (visited.findSome? (table.faultOf? g)) := by
  fun_induction checkFrom table g unseen work generalizing seen visited with
  | case1 unseen =>
      cases walks
      rfl
  | case2 unseen id work waiting absent =>
      rw [get?_eq_some ((isRest.mem_iff id).mp waiting).1] at absent
      cases absent
  | case3 unseen id work waiting node found fault faulty =>
      have fresh := ((isRest.mem_iff id).mp waiting).2
      cases walks with
      | known before => exact absurd before fresh
      | outside absent => exact absurd (absent.symm.trans found) (by simp)
      | visit =>
          have here : table.faultOf? g id = some fault := (faultOf?_eq found).trans faulty
          simp [here, verdict]
  | case4 unseen id work waiting node found faultless inductionHypothesis =>
      have fresh := ((isRest.mem_iff id).mp waiting).2
      have here : table.faultOf? g id = none := (faultOf?_eq found).trans faultless
      obtain ⟨others, walksOn⟩ := exists_walks (isRest.see id) (follow node ++ work)
      rw [walks.unique (walksOn.visit_together fresh found),
        inductionHypothesis (isRest.see id) walksOn]
      simp [here]
  | case5 unseen id work notWaiting inductionHypothesis =>
      cases walks with
      | known _ walks => exact inductionHypothesis isRest walks
      | outside _ walks => exact inductionHypothesis isRest walks
      | visit fresh found =>
          have waiting := (isRest.mem_iff id).mpr ⟨lt_size_of_get?_eq_some found, fresh⟩
          exact absurd waiting notWaiting

/-- The turns of the check come to an end from a state, and then tell an outcome. -/
def Settles (table : HandlerTable) (g : Graph) (state : List NodeId × List NodeId)
    (outcome : Except PassError Unit) : Prop :=
  ∃ trace last, Visits (table.turn g) state trace ∧ trace.getLast? = some last ∧
    table.verdictAt g last = outcome

theorem settles_of_turn {state next : List NodeId × List NodeId} {outcome : Except PassError Unit}
    (goes : table.turn g state = some next) (settles : table.Settles g next outcome) :
    table.Settles g state outcome := by
  obtain ⟨trace, last, visits, ends, tells⟩ := settles
  refine ⟨state :: trace, last, .next goes visits, ?_, tells⟩
  rw [List.getLast?_cons, ends]
  rfl

theorem settles_of_last {state : List NodeId × List NodeId} (stops : table.turn g state = none) :
    table.Settles g state (table.verdictAt g state) :=
  ⟨[state], state, .last stops, rfl, rfl⟩

/-- The turns end with what the check gives. -/
theorem settles_checkFrom (isRest : IsRest g seen unseen) :
    table.Settles g (seen, work) (table.checkFrom g unseen work) := by
  fun_induction checkFrom table g unseen work generalizing seen with
  | case1 unseen => exact settles_of_last rfl
  | case2 unseen id work waiting absent =>
      rw [get?_eq_some ((isRest.mem_iff id).mp waiting).1] at absent
      cases absent
  | case3 unseen id work waiting node found fault faulty =>
      have fresh := ((isRest.mem_iff id).mp waiting).2
      have faulty : table.faultAt? node = some fault := faulty
      have tells : table.verdictAt g (seen, id :: work) = .error fault := by
        simp [verdictAt, verdict, faultOf?_eq found, faulty]
      rw [← tells]
      exact settles_of_last (by simp [turn, fresh, found, faulty])
  | case4 unseen id work waiting node found faultless inductionHypothesis =>
      have fresh := ((isRest.mem_iff id).mp waiting).2
      have faultless : table.faultAt? node = none := faultless
      have goes : table.turn g (seen, id :: work) = some (seen ++ [id], follow node ++ work) := by
        simp [turn, fresh, found, faultless]
      exact settles_of_turn goes (inductionHypothesis (isRest.see id))
  | case5 unseen id work notWaiting inductionHypothesis =>
      by_cases before : id ∈ seen
      · exact settles_of_turn (by simp [turn, before]) (inductionHypothesis isRest)
      · have outside : ¬ id < g.size := fun inside =>
          notWaiting ((isRest.mem_iff id).mpr ⟨inside, before⟩)
        have absent : g.get? id = none := Array.getElem?_eq_none (Nat.not_lt.mp outside)
        have stillRest := isRest.see id
        rw [List.erase_of_not_mem notWaiting] at stillRest
        exact settles_of_turn (by simp [turn, before, absent]) (inductionHypothesis stillRest)

/-- A table has a handler of the shape of a node. -/
def Serves (table : HandlerTable) (node : Node) : Prop :=
  ∃ handler, table.get? node.kind = some handler ∧ handler.shape = node.shape

/-- An enabled node of the graph that a table has no handler of its shape for. -/
def Offends (table : HandlerTable) (g : Graph) (id : NodeId) : Prop :=
  ∃ node, g.get? id = some node ∧ node.enabled = true ∧ ¬ table.Serves node

/-- The message about an offender: nothing is registered for its kind, or a handler of the other
shape is. -/
inductive Reports (table : HandlerTable) (g : Graph) (id : NodeId) : PassError → Prop
  | unsupported {node : Node} (found : g.get? id = some node) (on : node.enabled = true)
      (missing : table.get? node.kind = none) :
      Reports table g id (.unsupportedKind (g.keyOf id) node.kind)
  | mismatch {node : Node} {handler : Handler} (found : g.get? id = some node)
      (on : node.enabled = true) (registered : table.get? node.kind = some handler)
      (other : handler.shape ≠ node.shape) :
      Reports table g id (.shapeMismatch (g.keyOf id) node.kind handler.shape node.shape)

theorem keyOf_eq {id : NodeId} {node : Node} (found : g.get? id = some node) :
    g.keyOf id = node.key := by
  rw [keyOf, found]
  rfl

theorem faultOf?_eq_none_iff {id : NodeId} :
    table.faultOf? g id = none ↔ ¬ table.Offends g id := by
  cases found : g.get? id with
  | none => simp [faultOf?, Offends, found]
  | some node =>
      rw [faultOf?_eq found, faultAt?]
      cases on : node.enabled with
      | false => simp [Offends, found, on]
      | true => simp [Offends, found, on, fault?_eq_none_iff, Serves]

theorem faultOf?_eq_some_iff {id : NodeId} {e : PassError} :
    table.faultOf? g id = some e ↔ table.Reports g id e := by
  constructor
  · intro faulty
    obtain ⟨node, found, faulty⟩ := Option.bind_eq_some_iff.mp faulty
    rw [faultAt?] at faulty
    split at faulty
    next on =>
      rw [fault?, ← keyOf_eq found] at faulty
      split at faulty
      next missing =>
        obtain rfl := Option.some.inj faulty
        exact .unsupported found on missing
      next handler registered =>
        split at faulty
        next => cases faulty
        next other =>
          obtain rfl := Option.some.inj faulty
          exact .mismatch found on registered other
    next => cases faulty
  · intro reports
    cases reports with
    | unsupported found on missing =>
        rw [faultOf?_eq found, faultAt?, if_pos on, fault?, missing, keyOf_eq found]
    | mismatch found on registered other =>
        rw [faultOf?_eq found, faultAt?, if_pos on, fault?, registered, keyOf_eq found]
        exact if_neg other

/-- What the check of a table finds, by the order in which a recursive walk visits the graph. -/
structure Decides (table : HandlerTable) (g : Graph) (roots order : List NodeId) : Prop where
  /-- The walk from the roots visits the nodes in this order, and in no other. -/
  walk : ∀ visited, Walks g [] roots visited ↔ visited = order
  nodup : order.Nodup
  /-- It visits the live nodes of the graph. -/
  live : ∀ id, id ∈ order ↔ g.contains id = true ∧ g.IsLive roots id
  /-- The loop with a stack ends, from the roots on. -/
  ends : table.Settles g ([], roots) (table.check g roots)
  passes : table.check g roots = .ok () ↔
    ∀ id node, g.IsLive roots id → g.get? id = some node → node.enabled = true → table.Serves node
  /-- Of several offenders, the first one is reported. -/
  refuses : ∀ e, table.check g roots = .error e ↔ ∃ before id after,
    order = before ++ id :: after ∧ table.Reports g id e ∧
      ∀ other ∈ before, ¬ table.Offends g other

theorem verdict_eq_error_iff {found : Option PassError} {e : PassError} :
    verdict found = .error e ↔ found = some e := by
  cases found <;> simp [verdict]

/-- The check of a table succeeds exactly if every enabled live node has a handler of its shape, and
reports the first one that has none otherwise, whatever the links of the graph are. -/
theorem check_finds_first_offender (table : HandlerTable) (g : Graph) (roots : List NodeId) :
    ∃ order, table.Decides g roots order := by
  obtain ⟨order, walks⟩ := exists_walks (IsRest.start g) roots
  refine ⟨order, ?_⟩
  constructor
  case walk => exact fun visited => ⟨fun again => again.unique walks, fun same => same ▸ walks⟩
  case nodup => exact walks.nodup.1
  case live =>
    intro id
    rw [walks.mem_iff, contains, decide_eq_true_iff]
  case ends => exact settles_checkFrom (IsRest.start g)
  case passes => simp only [check_eq_ok_iff, fault?_eq_none_iff, Serves]
  case refuses =>
    intro e
    have checked : table.check g roots = verdict (order.findSome? (table.faultOf? g)) :=
      checkFrom_eq_verdict (IsRest.start g) walks
    rw [checked, verdict_eq_error_iff, List.findSome?_eq_some_iff]
    simp only [faultOf?_eq_none_iff, faultOf?_eq_some_iff]

end BlockVerilog.HandlerTable
