import Mathlib.Data.List.Permutation
import BlockVerilog.Proofs.Document.Loading

/-!
The keys of the nodes that a document describes.

A node keeps its id as its key unless the id is empty, and then it is numbered. Ids are distinct, so
that two nodes share a key only where the number of one is the id of another, and a node is missed
by its id only where a numbered node with that key stands before it.
-/

namespace BlockVerilog

namespace Graph

theorem defaultKey_ne_empty (position : NodeId) : defaultKey position ≠ "" := by
  intro same
  have noChars : (defaultKey position).toList = [] := congrArg String.toList same
  simp [defaultKey] at noChars

theorem find?_eq_some_iff {g : Graph} {key : String} {position : NodeId} :
    g.find? key = some position ↔ position < g.size ∧ g.keyOf position = key ∧
      ∀ earlier < position, g.keyOf earlier ≠ key := by
  have keyAt : ∀ id (inside : id < g.nodes.toList.length), g.keyOf id = g.nodes.toList[id].key := by
    intro id inside
    rw [keyOf, get?_eq_some inside]
    rfl
  rw [find?, List.findIdx?_eq_some_iff_getElem]
  constructor
  · rintro ⟨inside, here, before⟩
    refine ⟨inside, (keyAt position inside).trans (of_decide_eq_true here), ?_⟩
    intro earlier less same
    rw [keyAt earlier (Nat.lt_trans less inside)] at same
    exact before earlier less (decide_eq_true same)
  · rintro ⟨inside, here, before⟩
    refine ⟨inside, decide_eq_true ((keyAt position inside).symm.trans here), ?_⟩
    intro earlier less same
    exact before earlier less ((keyAt earlier (Nat.lt_trans less inside)).trans (of_decide_eq_true same))

end Graph

namespace Document

variable {d : Document} {id other : String} {position place : NodeId}

/-- The key of a node at a position with an id. -/
def keyAt (position : NodeId) (id : String) : String :=
  if id = "" then Graph.defaultKey position else id

theorem IsAt.lt_length (isAt : d.IsAt id position) : position < d.ids.length :=
  (List.getElem?_eq_some_iff.mp isAt).1

theorem exists_id_at (inside : position < d.ids.length) : ∃ id, d.IsAt id position :=
  ⟨_, List.getElem?_eq_getElem inside⟩

theorem Declares.keyOf_eq {p : Program} (declares : d.Declares p) (isAt : d.IsAt id position) :
    p.graph.keyOf position = keyAt position id := by
  rw [IsAt, ids, List.getElem?_map, Option.map_eq_some_iff] at isAt
  obtain ⟨declared, listed, rfl⟩ := isAt
  obtain ⟨node, found, same⟩ := declares.nodes position declared listed
  rw [Graph.keyOf, found]
  exact same.key

/-- The keys of a program are those that its ids get at their positions. -/
theorem Declares.keys_eq {p : Program} (declares : d.Declares p) :
    p.graph.nodes.toList.map Node.key = d.ids.mapIdx keyAt := by
  have sizes : p.graph.nodes.toList.length = d.ids.length :=
    declares.size.trans (List.length_map DocumentNode.id).symm
  apply List.ext_getElem
  · rw [List.length_map, List.length_mapIdx, sizes]
  · intro position inside _
    rw [List.length_map] at inside
    have here := declares.keyOf_eq (List.getElem?_eq_getElem (sizes ▸ inside))
    rw [Graph.keyOf, Graph.get?_eq_some inside] at here
    rw [List.getElem_map, List.getElem_mapIdx]
    exact here

/-- Apart from numbers that are ids, keys tell positions apart. -/
theorem keyAt_injective (distinct : d.ids.Nodup)
    (free : ∀ unnamed, d.IsAt "" unnamed → Graph.defaultKey unnamed ∉ d.ids)
    (isAt : d.IsAt id position) (isOther : d.IsAt other place)
    (same : keyAt position id = keyAt place other) : position = place := by
  unfold keyAt at same
  by_cases unnamed : id = ""
  · subst unnamed
    by_cases otherUnnamed : other = ""
    · exact isAt.unique distinct (otherUnnamed ▸ isOther)
    · rw [if_pos rfl, if_neg otherUnnamed] at same
      exact absurd (same ▸ isOther.mem) (free position isAt)
  · rw [if_neg unnamed] at same
    by_cases otherUnnamed : other = ""
    · subst otherUnnamed
      rw [if_pos rfl] at same
      exact absurd (same ▸ isAt.mem) (free place isOther)
    · rw [if_neg otherUnnamed] at same
      exact isAt.unique distinct (same ▸ isOther)

theorem nodup_mapIdx_keyAt_iff (distinct : d.ids.Nodup) :
    (d.ids.mapIdx keyAt).Nodup ↔
      ∀ unnamed, d.IsAt "" unnamed → Graph.defaultKey unnamed ∉ d.ids := by
  constructor
  · intro keysDistinct unnamed isAt known
    obtain ⟨place, inside, named⟩ := List.getElem_of_mem known
    have isOther : d.ids[place]? = some (Graph.defaultKey unnamed) :=
      List.getElem?_eq_some_iff.mpr ⟨inside, named⟩
    have same : (d.ids.mapIdx keyAt)[unnamed]? = (d.ids.mapIdx keyAt)[place]? := by
      rw [List.getElem?_mapIdx, List.getElem?_mapIdx, isAt, isOther, Option.map_some,
        Option.map_some, keyAt, keyAt, if_pos rfl, if_neg (Graph.defaultKey_ne_empty unnamed)]
    have inKeys : unnamed < (d.ids.mapIdx keyAt).length := by
      rw [List.length_mapIdx]
      exact isAt.lt_length
    obtain rfl := (List.getElem?_inj inKeys keysDistinct).mp same
    rw [isAt] at isOther
    exact Graph.defaultKey_ne_empty unnamed (Option.some.inj isOther).symm
  · rw [List.nodup_iff_getElem?_ne_getElem?]
    intro free first second less inside same
    rw [List.length_mapIdx] at inside
    obtain ⟨id, isAt⟩ := exists_id_at (Nat.lt_trans less inside)
    obtain ⟨other, isOther⟩ := exists_id_at inside
    rw [List.getElem?_mapIdx, List.getElem?_mapIdx, isAt, isOther] at same
    exact Nat.ne_of_lt less (keyAt_injective distinct free isAt isOther (Option.some.inj same))

/-- A node is found by its id unless that is empty, or an earlier node without id is numbered so. -/
theorem Declares.find?_eq_some_iff {p : Program} (declares : d.Declares p) (distinct : d.ids.Nodup)
    (isAt : d.IsAt id position) :
    p.graph.find? id = some position ↔
      id ≠ "" ∧ ∀ earlier < position, d.IsAt "" earlier → Graph.defaultKey earlier ≠ id := by
  have inside : position < p.graph.size := declares.lt_size_of_isAt isAt
  rw [Graph.find?_eq_some_iff, declares.keyOf_eq isAt, keyAt]
  constructor
  · rintro ⟨_, here, before⟩
    refine ⟨?_, ?_⟩
    · rintro rfl
      exact Graph.defaultKey_ne_empty position here
    · intro earlier less unnamed numbered
      apply before earlier less
      rw [declares.keyOf_eq unnamed, keyAt, if_pos rfl, numbered]
  · rintro ⟨named, before⟩
    refine ⟨inside, if_neg named, ?_⟩
    intro earlier less same
    obtain ⟨other, isOther⟩ := exists_id_at (Nat.lt_trans less isAt.lt_length)
    rw [declares.keyOf_eq isOther, keyAt] at same
    by_cases unnamed : other = ""
    · subst unnamed
      exact before earlier less isOther (by rwa [if_pos rfl] at same)
    · rw [if_neg unnamed] at same
      exact Nat.ne_of_lt less (IsAt.unique distinct isOther (same ▸ isAt))

/-- Every node with an id has it as its key. Keys are distinct exactly if no node without id is
numbered by the id of another, and an id finds its node exactly if it is not empty and no earlier
node is numbered so. -/
theorem keys_after_loading {d : Document} {p : Program} (loaded : d.toProgram = .ok p) :
    (∀ id position, d.IsAt id position → p.graph.keyOf position = keyAt position id) ∧
    ((p.graph.nodes.toList.map Node.key).Nodup ↔
      ∀ unnamed, d.IsAt "" unnamed → Graph.defaultKey unnamed ∉ d.ids) ∧
    ∀ id position, d.IsAt id position →
      (p.graph.find? id = some position ↔
        id ≠ "" ∧ ∀ earlier < position, d.IsAt "" earlier → Graph.defaultKey earlier ≠ id) := by
  have spec := d.toProgram_spec
  rw [loaded] at spec
  obtain ⟨distinct, _, declares⟩ := spec
  refine ⟨fun id position isAt => declares.keyOf_eq isAt, ?_, ?_⟩
  · rw [declares.keys_eq]
    exact nodup_mapIdx_keyAt_iff distinct
  · intro id position isAt
    exact declares.find?_eq_some_iff distinct isAt

/-- A number block of a kind, under an id. -/
def literal (id kind : String) : DocumentNode where
  id := id
  kind := kind
  fields := ∅
  values := []
  statements := []
  next := none
  output := true
  comment := none
  enabled := true

/-- The node without id is numbered by the id of one that stands before it. -/
def numberedLater : Document where
  vars := []
  nodes := [literal "n1" "one", literal "" "zero", literal "last" "one"]
  roots := none

theorem numberedLater_keys :
    ∃ p, numberedLater.toProgram = .ok p ∧ ¬ (p.graph.nodes.toList.map Node.key).Nodup ∧
      p.graph.find? "n1" = some 0 ∧ p.graph.find? "" ≠ some 1 ∧ p.graph.find? "last" = some 2 := by
  obtain ⟨p, loaded⟩ : ∃ p, numberedLater.toProgram = .ok p := ⟨_, by cbv⟩
  obtain ⟨_, distinct, finds⟩ := keys_after_loading loaded
  have unnamedAt : ∀ position, numberedLater.IsAt "" position → position = 1 := by
    intro position isAt
    exact IsAt.unique (by decide) isAt rfl
  refine ⟨p, loaded, ?_, ?_, ?_, ?_⟩
  · rw [distinct]
    intro free
    exact free 1 rfl (by decide)
  · refine (finds "n1" 0 rfl).mpr ⟨by decide, fun earlier less => absurd less (Nat.not_lt_zero _)⟩
  · intro found
    exact ((finds "" 1 rfl).mp found).1 rfl
  · refine (finds "last" 2 rfl).mpr ⟨by decide, fun earlier _ isAt => ?_⟩
    obtain rfl := unnamedAt earlier isAt
    decide

/-- The node without id is numbered by the id of one that stands behind it. -/
def numberedBefore : Document where
  vars := []
  nodes := [literal "" "zero", literal "n0" "one"]
  roots := none

theorem numberedBefore_misses :
    ∃ p, numberedBefore.toProgram = .ok p ∧
      p.graph.nodes.toList.map Node.key = ["n0", "n0"] ∧ ¬ ["n0", "n0"].Nodup ∧
      numberedBefore.IsAt "n0" 1 ∧ p.graph.find? "n0" = some 0 ∧
      numberedBefore.IsAt "" 0 ∧ p.graph.find? "" = none := by
  refine ⟨⟨⟨#[_, _], []⟩, [0, 1]⟩, rfl, rfl, by decide, ?_⟩
  cbv

end Document

end BlockVerilog
