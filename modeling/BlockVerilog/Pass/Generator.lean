import BlockVerilog.Graph.Validation
import BlockVerilog.Nesting
import BlockVerilog.Pass.Comments
import BlockVerilog.Pass.Handler
import BlockVerilog.Pass.State
import BlockVerilog.Text.Tidy

/-!
Generation of code from a graph.

Handlers pull in the text of their slots; parentheses, comments and indentation are decided here.
`engine` answers questions about the nodes below by an engine that goes one level less deep. As many
levels as the graph has nodes are enough: the enabled nodes on a way down that ends are distinct,
and a disabled one, which can only be the last, pulls in nothing. A graph that `validate` accepts
has no other ways.
-/

namespace BlockVerilog

/-- Answers about nodes: the text of an expression, and of a statement with those after it. -/
structure Engine where
  /-- Nothing for a disabled node. -/
  expression : NodeId → Pass (Option Expression)
  chain : NodeId → Pass String

namespace Graph

/-- The first statements of a chain, at most so many, and whether they are all: it goes from a
statement on along `next`. -/
def chainWithin (g : Graph) : (steps : Nat) → NodeId → List NodeId × Bool
  | 0, _ => ([], false)
  | steps + 1, id =>
      match (g.get? id).bind Node.next with
      | none => ([id], true)
      | some next =>
          let (rest, ends) := g.chainWithin steps next
          (id :: rest, ends)

/-- The chain from a statement on, and whether it ends. One that does not holds each of its
statements. -/
def chain (g : Graph) (head : NodeId) : List NodeId × Bool :=
  g.chainWithin g.size head

end Graph

/-- A graph, what generates its nodes, and the settings. -/
structure Generator where
  graph : Graph
  table : HandlerTable
  config : Config

namespace Generator

/-- A node of the graph. -/
def node (gen : Generator) (id : NodeId) : Pass Node :=
  match gen.graph.get? id with
  | some node => pure node
  | none => throw (.absentNode id)

/-- The expression in a value slot, in parentheses if it binds looser than `required`; nothing if
the slot is empty or its node generates nothing. -/
def value (gen : Generator) (below : Engine) (id : NodeId) (slot : String)
    (required : Precedence) : Pass (Option String) := do
  let node ← gen.node id
  match node.values.target? slot with
  | none => return none
  | some child =>
      match ← below.expression child with
      | none => return none
      | some (text, level) =>
          return if text = "" then none else some (parenthesize text level required)

/-- The statements in a statement slot, indented by one level. -/
def statements (gen : Generator) (below : Engine) (id : NodeId) (slot : String) :
    Pass String := do
  let node ← gen.node id
  match node.statements.target? slot with
  | none => return ""
  | some head => return Text.indentLines gen.config.indent (← below.chain head)

/-- The name of a variable; one that the workspace does not have is named by its id. -/
def variableName (gen : Generator) (id : String) : Pass String := do
  let (name, state) := (← get).nameVariable id ((gen.graph.variableName? id).getD id)
  set state
  return name

def freshName (wanted : String) : Pass String := do
  let (name, state) := (← get).nameHelper wanted
  set state
  return name

def define (key text : String) : Pass Bool := do
  let (isNew, state) := (← get).declare key text
  set state
  return isNew

/-- Run a script, with answers about the nodes below from an engine. -/
def run (gen : Generator) (below : Engine) {α : Type} : Script α → Pass α
  | .done a => pure a
  | .fail error => throw error
  | .value id slot required next => do
      let text ← gen.value below id slot required
      gen.run below (next text)
  | .statements id slot next => do
      let text ← gen.statements below id slot
      gen.run below (next text)
  | .variableName id next => do
      let name ← gen.variableName id
      gen.run below (next name)
  | .freshName wanted next => do
      let name ← freshName wanted
      gen.run below (next name)
  | .define key text next => do
      let isNew ← define key text
      gen.run below (next isNew)

def site (gen : Generator) (id : NodeId) (node : Node) : Site := ⟨gen.graph, gen.config, id, node⟩

def unsupported (node : Node) : PassError := .unsupportedKind node.key node.kind

def mismatch (node : Node) (registered : Shape) : PassError :=
  .shapeMismatch node.key node.kind registered node.shape

/-- The text of an expression node. -/
def expressionAt (gen : Generator) (below : Engine) (id : NodeId) : Pass (Option Expression) := do
  let node ← gen.node id
  if node.enabled then
    match gen.table.get? node.kind with
    | some (.expression generate) => return some (← gen.run below (generate (gen.site id node)))
    | some (.statement _) => throw (mismatch node .statement)
    | none => throw (unsupported node)
  else return none

/-- The lines of a statement node itself. -/
def statementAt (gen : Generator) (below : Engine) (id : NodeId) : Pass String := do
  let node ← gen.node id
  match gen.table.get? node.kind with
  | some (.statement generate) => gen.run below (generate (gen.site id node))
  | some (.expression _) => throw (mismatch node .expression)
  | none => throw (unsupported node)

/-- The comment lines in front of a node. -/
def commentsBefore (gen : Generator) (id : NodeId) : String :=
  String.ofList (gen.graph.commentsBefore gen.config.commentWrap id)

/-- A statement with its comments; nothing for a disabled one. -/
def commented (gen : Generator) (below : Engine) (id : NodeId) : Pass String := do
  let node ← gen.node id
  if node.enabled then return gen.commentsBefore id ++ (← gen.statementAt below id)
  else return ""

/-- Statements one after the other, each with its comments. -/
def commentedAll (gen : Generator) (below : Engine) : List NodeId → Pass String
  | [] => return ""
  | id :: rest => do
      let first ← gen.commented below id
      return first ++ (← gen.commentedAll below rest)

/-- A statement and those after it. Of a chain that does not end, the first error is that of a
statement, if one of them has any. -/
def chainAt (gen : Generator) (below : Engine) (head : NodeId) : Pass String := do
  let (ids, ends) := gen.graph.chain head
  let text ← gen.commentedAll below ids
  if ends then return text else throw .endless

/-- Answers nothing. -/
def exhausted : Engine := ⟨fun _ => throw .endless, fun _ => throw .endless⟩

/-- Answers about nodes, given answers about the nodes below them. -/
def above (gen : Generator) (below : Engine) : Engine :=
  ⟨gen.expressionAt below, gen.chainAt below⟩

/-- Answers about nodes that nest at most so deep. -/
def engine (gen : Generator) (depth : Nat) : Engine :=
  Nesting.run (fun _ => gen.above) exhausted depth

@[simp] theorem engine_zero (gen : Generator) : gen.engine 0 = exhausted := rfl

@[simp] theorem engine_succ (gen : Generator) (depth : Nat) :
    gen.engine (depth + 1) = gen.above (gen.engine depth) :=
  Nesting.run_succ _ _ depth

/-- Answers about all nodes. -/
def whole (gen : Generator) : Engine := gen.engine gen.graph.size

/-- The text of a statement node, without comments and without the statements after it. -/
def statement (gen : Generator) (id : NodeId) : Pass String :=
  gen.statementAt gen.whole id

/-- The text of a root: its chain of statements, or an expression as a statement. -/
def root (gen : Generator) (id : NodeId) : Pass String := do
  let node ← gen.node id
  match node.shape with
  | .statement => gen.whole.chain id
  | .expression =>
      match ← gen.whole.expression id with
      | none => return ""
      | some (text, _) =>
          return if text = "" then "" else gen.commentsBefore id ++ text ++ ";\n"

/-- The texts of roots, without the empty ones. -/
def rootTexts (gen : Generator) : List NodeId → Pass (List String)
  | [] => return []
  | id :: rest => do
      let first ← gen.root id
      let more ← gen.rootTexts rest
      return if first = "" then more else first :: more

/-- Whether the graph and the table allow a pass over these roots. -/
def precheck (gen : Generator) (roots : List NodeId) : Except PassError Unit :=
  match gen.graph.validate roots with
  | .error defect => .error (.defect defect)
  | .ok () => gen.table.check gen.graph roots

/-- A body with the declarations of the pass in front, cleaned up. -/
def finish (state : PassState) (body : String) : String :=
  String.ofList (Text.tidy (state.declarations.hoistOver body).toList)

/-- The variables of the workspace, with the names they ask for. -/
def namedVars (gen : Generator) : List (String × String) :=
  gen.graph.vars.map fun v => (v.id, v.name)

/-- A pass over roots, from a state that only its reserved words matter of. -/
def generate (gen : Generator) (roots : List NodeId) : Pass String := do
  match gen.precheck roots with
  | .error error => throw error
  | .ok () =>
      modify (·.named gen.namedVars)
      let texts ← gen.rootTexts roots
      return finish (← get) ("\n".intercalate texts)

/-- The code of a graph, or why there is none. -/
def code (gen : Generator) (roots : List NodeId) : Except PassError String :=
  ((gen.generate roots).run.run (.initial gen.config)).1

end Generator

end BlockVerilog
