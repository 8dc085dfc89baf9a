import BlockVerilog.Proofs.Graph.WellFormed
import BlockVerilog.Proofs.Loop
import BlockVerilog.Pass.Generator

/-!
The two loops that walk a graph without a check for what they visited.

One goes along `next`, the other takes nodes off a stack and puts what hangs in them on it. The
bounds that `chain` and `harvest` carry are never reached in a graph without cycles.
-/

namespace BlockVerilog.Graph

open Relation Loop

/-- The statement after a statement. -/
def following (g : Graph) (id : NodeId) : Option NodeId := (g.get? id).bind Node.next

theorem following_eq_some_iff {g : Graph} {source target : NodeId} :
    g.following source = some target ↔ g.LinksNext source target := by
  simp [following, LinksNext, Option.bind_eq_some_iff]

/-- Take the first node off a stack, and put what hangs in it on it. -/
def unstack (g : Graph) : List NodeId → Option (List NodeId)
  | [] => none
  | id :: stack => some (g.valueTargets id ++ stack)

section

variable {g : Graph}

theorem chainWithin_succ (steps : Nat) (id : NodeId) :
    g.chainWithin (steps + 1) id =
      match g.following id with
      | none => ([id], true)
      | some next => (id :: (g.chainWithin steps next).1, (g.chainWithin steps next).2) := rfl

theorem visits_chainWithin {steps : Nat} {head : NodeId}
    (ends : (g.chainWithin steps head).2 = true) :
    Visits g.following head (g.chainWithin steps head).1 := by
  induction steps generalizing head with
  | zero => simp [chainWithin] at ends
  | succ steps inductionHypothesis =>
      rw [chainWithin_succ] at ends ⊢
      cases follows : g.following head with
      | none => exact .last follows
      | some next =>
          rw [follows] at ends
          exact .next follows (inductionHypothesis ends)

theorem reaches_of_mem_chainWithin {steps : Nat} {head id : NodeId}
    (member : id ∈ (g.chainWithin steps head).1) : ReflTransGen g.LinksNext head id := by
  induction steps generalizing head with
  | zero => simp [chainWithin] at member
  | succ steps inductionHypothesis =>
      rw [chainWithin_succ] at member
      cases follows : g.following head with
      | none =>
          rw [follows, List.mem_singleton] at member
          exact member ▸ .refl
      | some next =>
          rw [follows, List.mem_cons] at member
          rcases member with rfl | later
          · exact .refl
          · exact (inductionHypothesis later).head (following_eq_some_iff.mp follows)

theorem Closed.lt_size_of_reaches (closed : g.Closed) {source target : NodeId}
    (inside : source < g.size) (path : ReflTransGen g.Links source target) : target < g.size := by
  cases path with
  | refl => exact inside
  | tail _ link => exact closed _ _ link

theorem extent_lt (acyclic : g.Acyclic) {source target : NodeId} (link : g.Links source target) :
    extent g.Links g.size target < extent g.Links g.size source :=
  extent_lt_of_link link link.source_lt_size (acyclic source)

theorem chainWithin_ends (closed : g.Closed) (acyclic : g.Acyclic) {steps : Nat} {head : NodeId}
    (inside : head < g.size) (enough : extent g.Links g.size head ≤ steps) :
    (g.chainWithin steps head).2 = true := by
  induction steps generalizing head with
  | zero =>
      have positive : 0 < extent g.Links g.size head := extent_pos inside
      omega
  | succ steps inductionHypothesis =>
      rw [chainWithin_succ]
      cases follows : g.following head with
      | none => rfl
      | some next =>
          have link := (following_eq_some_iff.mp follows).links
          have shrinks := extent_lt acyclic link
          exact inductionHypothesis (closed _ _ link) (by omega)

theorem chain_ends (closed : g.Closed) (acyclic : g.Acyclic) {head : NodeId}
    (inside : head < g.size) : (g.chain head).2 = true :=
  chainWithin_ends closed acyclic inside (extent_le_size head)

theorem reaches_of_mem_chain {head id : NodeId} (member : id ∈ (g.chain head).1) :
    ReflTransGen g.LinksNext head id := reaches_of_mem_chainWithin member

theorem reaches_of_follows {source target : NodeId}
    (path : ReflTransGen g.LinksNext source target) : ReflTransGen g.Links source target :=
  path.lift id fun _ _ => LinksNext.links

/-- The statements of a chain are those that follow each other from its head on. -/
theorem visits_chain (closed : g.Closed) (acyclic : g.Acyclic) {head : NodeId}
    (inside : head < g.size) : Visits g.following head (g.chain head).1 :=
  visits_chainWithin (chain_ends closed acyclic inside)

/-- A node on a stack that is followed far enough. -/
def Suffices (g : Graph) (entry : Nat × NodeId) : Prop :=
  entry.2 < g.size ∧ extent g.Links g.size entry.2 ≤ entry.1

theorem Suffices.pos {depth : Nat} {id : NodeId} (suffice : g.Suffices (depth, id)) : 0 < depth :=
  (extent_pos suffice.1).trans_le suffice.2

theorem Suffices.of_links (closed : g.Closed) (acyclic : g.Acyclic) {depth : Nat}
    {source target : NodeId} (suffice : g.Suffices (depth + 1, source))
    (link : g.Links source target) : g.Suffices (depth, target) := by
  have shrinks := extent_lt acyclic link
  have enough : extent g.Links g.size source ≤ depth + 1 := suffice.2
  exact ⟨closed _ _ link, show extent g.Links g.size target ≤ depth by omega⟩

theorem Suffices.of_reaches (closed : g.Closed) {depth : Nat} {source target : NodeId}
    (suffice : g.Suffices (depth, source)) (path : ReflTransGen g.Links source target) :
    g.Suffices (depth, target) :=
  ⟨closed.lt_size_of_reaches suffice.1 path, (extent_le_of_reaches path).trans suffice.2⟩

theorem suffices_children (closed : g.Closed) (acyclic : g.Acyclic) {depth : Nat} {id : NodeId}
    (suffice : g.Suffices (depth + 1, id)) :
    ∀ entry ∈ (g.valueTargets id).map (depth, ·), g.Suffices entry := by
  rw [List.forall_mem_map]
  intro child hangs
  exact suffice.of_links closed acyclic (mem_valueTargets.mp hangs).links

/-- The stack empties; what is taken off it is what `harvest` gives. -/
theorem visits_unstack (closed : g.Closed) (acyclic : g.Acyclic) (stack : List (Nat × NodeId))
    (suffice : ∀ entry ∈ stack, g.Suffices entry) :
    ∃ trace, Visits g.unstack (stack.map Prod.snd) trace ∧
      trace.filterMap List.head? = g.harvest stack ∧ ∀ id ∈ g.harvest stack, id < g.size := by
  fun_induction harvest g stack with
  | case1 => exact ⟨[[]], .last rfl, rfl, by simp⟩
  | case2 id stack =>
      obtain ⟨inside, enough⟩ : g.Suffices (0, id) := suffice _ List.mem_cons_self
      change extent g.Links g.size id ≤ 0 at enough
      have positive : 0 < extent g.Links g.size id := extent_pos inside
      omega
  | case3 depth id stack inductionHypothesis =>
      rw [List.forall_mem_cons] at suffice
      obtain ⟨first, others⟩ := suffice
      obtain ⟨trace, visits, heads, inside⟩ := inductionHypothesis
        (List.forall_mem_append.mpr ⟨suffices_children closed acyclic first, others⟩)
      refine ⟨(id :: stack.map Prod.snd) :: trace, .next ?_ visits, ?_, ?_⟩
      · simp [unstack]
      · simp [heads]
      · exact List.forall_mem_cons.mpr ⟨first.1, inside⟩

theorem visits_unstack_singleton (closed : g.Closed) (acyclic : g.Acyclic) {id : NodeId}
    (inside : id < g.size) :
    ∃ trace, Visits g.unstack [id] trace ∧
      trace.filterMap List.head? = g.harvest [(g.size, id)] ∧
      ∀ visited ∈ g.harvest [(g.size, id)], visited < g.size :=
  visits_unstack closed acyclic [(g.size, id)] (by
    rw [List.forall_mem_singleton]
    exact ⟨inside, extent_le_size id⟩)

end

end BlockVerilog.Graph
