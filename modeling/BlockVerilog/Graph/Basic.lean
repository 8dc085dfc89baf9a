import BlockVerilog.Graph.Node

/-!
Block graphs: nodes in the order they were added, and the variables of the workspace.

Nodes are never taken away, so an id stays valid. A link may point outside the graph until
`Graph.validate` has accepted it.
-/

namespace BlockVerilog

/-- A variable of the workspace: its id, and the name the user gave it. -/
structure Variable where
  id : String
  name : String
  deriving DecidableEq, Repr

structure Graph where
  nodes : Array Node
  vars : List Variable

namespace Graph

instance : EmptyCollection Graph := ⟨⟨#[], []⟩⟩

def size (g : Graph) : Nat := g.nodes.size

def isEmpty (g : Graph) : Bool := g.nodes.isEmpty

def get? (g : Graph) (id : NodeId) : Option Node := g.nodes[id]?

def contains (g : Graph) (id : NodeId) : Bool := id < g.size

/-- The ids of all nodes, in the order they were added. -/
def ids (g : Graph) : List NodeId := List.range g.size

/-- The key of a node without one of its own. -/
def defaultKey (id : NodeId) : String := "n" ++ toString id

/-- Add a node at the end; one without key gets a default key. -/
def add (g : Graph) (node : Node) : NodeId × Graph :=
  let id := g.size
  let keyed := if node.key = "" then { node with key := defaultKey id } else node
  (id, { g with nodes := g.nodes.push keyed })

/-- Change one node; without it nothing changes. -/
def modify (g : Graph) (id : NodeId) (change : Node → Node) : Graph :=
  { g with nodes := g.nodes.modify id change }

/-- The first node with a key. -/
def find? (g : Graph) (key : String) : Option NodeId :=
  g.nodes.toList.findIdx? (·.key = key)

/-- How an id outside the graph is named. -/
def numberText (id : NodeId) : String := "#" ++ toString id

/-- What messages call a node. -/
def keyOf (g : Graph) (id : NodeId) : String :=
  ((g.get? id).map Node.key).getD (numberText id)

def addVariable (g : Graph) (id name : String) : Graph :=
  { g with vars := g.vars ++ [⟨id, name⟩] }

/-- The name of the first variable with an id. -/
def variableName? (g : Graph) (id : String) : Option String :=
  (g.vars.find? (·.id = id)).map Variable.name

def connectValue (g : Graph) (parent : NodeId) (slot : String) (child : NodeId) : Graph :=
  g.modify parent fun node => { node with values := node.values.insert slot (some child) }

def connectStatement (g : Graph) (parent : NodeId) (slot : String) (head : NodeId) : Graph :=
  g.modify parent fun node => { node with statements := node.statements.insert slot (some head) }

def setNext (g : Graph) (source target : NodeId) : Graph :=
  g.modify source fun node => { node with next := some target }

def setEnabled (g : Graph) (id : NodeId) (enabled : Bool) : Graph :=
  g.modify id fun node => { node with enabled := enabled }

/-- Link nodes into one chain, in order. -/
def link (g : Graph) (ids : List NodeId) : Graph :=
  (ids.zip ids.tail).foldl (fun g pair => g.setNext pair.1 pair.2) g

/-- Every id that some node links to, inside the graph or not. -/
def targets (g : Graph) : List NodeId :=
  g.nodes.toList.flatMap Node.successors

/-- The nodes that no node links to, the entry points of a program that names none. -/
def defaultRoots (g : Graph) : List NodeId :=
  let linked := g.targets
  g.ids.filter (· ∉ linked)

@[simp] theorem mem_ids {g : Graph} {id : NodeId} : id ∈ g.ids ↔ id < g.size := by
  simp [ids]

theorem get?_eq_some {g : Graph} {id : NodeId} (inside : id < g.nodes.size) :
    g.get? id = some g.nodes[id] :=
  Array.getElem?_eq_getElem inside

theorem lt_size_of_get?_eq_some {g : Graph} {id : NodeId} {node : Node}
    (found : g.get? id = some node) : id < g.size := by
  obtain ⟨inside, _⟩ := Array.getElem?_eq_some_iff.mp found
  exact inside

theorem length_erase_lt {ids : List NodeId} {id : NodeId} (found : id ∈ ids) :
    (ids.erase id).length < ids.length := by
  rw [List.length_erase_of_mem found]
  have := List.length_pos_of_mem found
  omega

end Graph

end BlockVerilog
