import BlockVerilog.Config
import BlockVerilog.Graph.Basic
import BlockVerilog.Pass.Script

/-!
Handlers generate the nodes of a kind; a table has one for each kind it knows.

`HandlerTable.check` looks at every node that a pass will reach, before any text is made.
-/

namespace BlockVerilog

/-- A node in its graph, and the settings of the pass. -/
structure Site where
  graph : Graph
  config : Config
  id : NodeId
  node : Node

namespace Site

/-- The text of a field, empty where there is none. -/
def field (site : Site) (name : String) : String := site.node.field name

/-- The expression in a value slot of the node. -/
def value (site : Site) (slot : String) (required : Precedence) : Script (Option String) :=
  .value site.id slot required .done

/-- The expression in a value slot, or a fallback where it gives none. -/
def valueOr (site : Site) (slot : String) (required : Precedence) (fallback : String) :
    Script String :=
  .value site.id slot required fun text => .done (text.getD fallback)

/-- The statements in a statement slot of the node. -/
def statements (site : Site) (slot : String) : Script String :=
  .statements site.id slot .done

/-- Fail because a choice field holds none of its choices. -/
def invalidField {α : Type} (site : Site) (field : String) : Script α :=
  .fail (.invalidField (site.graph.keyOf site.id) field (site.field field))

end Site

/-- What an expression node gives: its text, and the level of its outermost operator. -/
abbrev Expression := String × Precedence

/-- Generates the nodes of a kind. A statement handler gives whole lines, without the comments of
its node and without the statements that follow. -/
inductive Handler where
  | expression (generate : Site → Script Expression)
  | statement (generate : Site → Script String)

namespace Handler

def shape : Handler → Shape
  | expression _ => .expression
  | statement _ => .statement

/-- How a handler is shown. -/
def label : Handler → String
  | expression _ => "Handler::Expression"
  | statement _ => "Handler::Statement"

/-- A handler that reaches other nodes only through the slots of its own. -/
def IsLocal : Handler → Prop
  | expression generate => ∀ site, (generate site).IsLocal site.id
  | statement generate => ∀ site, (generate site).IsLocal site.id

end Handler

/-- Handlers by kind. -/
abbrev HandlerTable := OrderedMap String Handler

namespace HandlerTable

/-- The kinds of a table in the order of their names. -/
def sortedKinds (table : HandlerTable) : List String := table.keys.mergeSort (· ≤ ·)

/-- What keeps an enabled node from being generated: no handler, or one of the other shape. -/
def fault? (table : HandlerTable) (node : Node) : Option PassError :=
  match table.get? node.kind with
  | none => some (.unsupportedKind node.key node.kind)
  | some handler =>
      if handler.shape = node.shape then none
      else some (.shapeMismatch node.key node.kind handler.shape node.shape)

/-- The nodes to look at behind a node. A disabled one generates nothing, so that only the
statements after it count. -/
def follow (node : Node) : List NodeId :=
  if node.enabled then node.successors else node.next.toList

/-- Look at nodes in order, each before those behind it and only if it is still `unseen`. -/
def checkFrom (table : HandlerTable) (g : Graph) (unseen : List NodeId) :
    List NodeId → Except PassError Unit
  | [] => .ok ()
  | id :: work =>
      if _found : id ∈ unseen then
        match g.get? id with
        | none => checkFrom table g (unseen.erase id) work
        | some node =>
            match if node.enabled then table.fault? node else none with
            | some fault => .error fault
            | none => checkFrom table g (unseen.erase id) (follow node ++ work)
      else checkFrom table g unseen work
termination_by work => (unseen.length, work.length)
decreasing_by
  · exact Prod.Lex.left _ _ (Graph.length_erase_lt _found)
  · exact Prod.Lex.left _ _ (Graph.length_erase_lt _found)
  · exact Prod.Lex.right _ (by simp)

/-- Whether every enabled node that is reached from the roots has a handler of its shape. -/
def check (table : HandlerTable) (g : Graph) (roots : List NodeId) : Except PassError Unit :=
  table.checkFrom g g.ids roots

end HandlerTable

end BlockVerilog
