import BlockVerilog.Graph.Basic
import BlockVerilog.Graph.Defect

/-!
Graph documents, in which nodes refer to each other by id, and the programs they describe.

`Document.toProgram` resolves ids to positions. It does not look at the structure of the graph.
-/

namespace BlockVerilog

/-- A slot as a document declares it: its name, and the id of the node in it. -/
abbrev SlotEntry := String × Option String

/-- A node as a document describes it. -/
structure DocumentNode where
  id : String
  kind : String
  fields : Fields
  values : List SlotEntry
  statements : List SlotEntry
  next : Option String
  output : Bool
  comment : Option String
  enabled : Bool

structure Document where
  vars : List Variable
  nodes : List DocumentNode
  /-- The entry points; the nodes nothing links to where absent. -/
  roots : Option (List String)

/-- A graph with its entry points. -/
structure Program where
  graph : Graph
  roots : List NodeId

namespace Document

/-- The position of the node with an id. -/
def position? (d : Document) (id : String) : Option NodeId :=
  d.nodes.findIdx? (·.id = id)

/-- The position of a target, or the defect of a slot that refers to nothing. -/
def resolve (d : Document) (owner slot target : String) : Except Defect NodeId :=
  match d.position? target with
  | some id => .ok id
  | none => .error (.danglingReference owner slot target)

/-- The target of a slot or link that may be empty. -/
def resolveOptional (d : Document) (owner slot : String) :
    Option String → Except Defect (Option NodeId)
  | none => .ok none
  | some target => (d.resolve owner slot target).map some

/-- The slots that entries declare, in order: of several entries with one name the first gives the
place and the last the target, but every target has to exist. -/
def resolveSlots (d : Document) (owner : String) (entries : List SlotEntry) :
    Except Defect Slots :=
  entries.foldlM (fun slots entry =>
    (d.resolveOptional owner entry.1 entry.2).map (slots.insert entry.1 ·)) ∅

/-- The node at a position. A node with an empty id gets a default key. -/
def resolveNode (d : Document) (position : NodeId) (node : DocumentNode) :
    Except Defect Node := do
  let values ← d.resolveSlots node.id node.values
  let statements ← d.resolveSlots node.id node.statements
  let next ← d.resolveOptional node.id "next" node.next
  return {
    key := if node.id = "" then Graph.defaultKey position else node.id
    kind := node.kind
    shape := .ofOutput node.output
    fields := node.fields
    values := values
    statements := statements
    next := next
    comment := node.comment.getD ""
    enabled := node.enabled }

/-- The first id that occurred before. -/
def firstRepeated : (seen ids : List String) → Option String
  | _, [] => none
  | seen, id :: rest => if id ∈ seen then some id else firstRepeated (id :: seen) rest

/-- The program that a document describes: its ids have to be distinct, and every reference has to
name one of them. -/
def toProgram (d : Document) : Except Defect Program := do
  if let some id := firstRepeated [] (d.nodes.map DocumentNode.id) then
    throw (.duplicateId id)
  let nodes ← d.nodes.zipIdx.mapM fun entry => d.resolveNode entry.2 entry.1
  let graph : Graph := ⟨nodes.toArray, d.vars⟩
  match d.roots with
  | none => return ⟨graph, graph.defaultRoots⟩
  | some ids =>
      let roots ← ids.mapM (d.resolve "roots" "roots")
      return ⟨graph, roots⟩

end Document

end BlockVerilog
