import BlockVerilog.Pass.Handler

/-!
Conditionals.

The branches of a chain are numbered by its slots; `branchCount` says how many there are.
-/

namespace BlockVerilog.Handlers

def conditionSlot (n : Nat) : String := "IF" ++ toString n

def bodySlot (n : Nat) : String := "DO" ++ toString n

/-- How many branches a conditional has: one, and one for each condition slot present from number
one on, up to the first that is not. -/
def branchCount (node : Node) : Nat :=
  1 + ((List.range node.values.size).takeWhile fun n =>
    node.values.contains (conditionSlot (n + 1))).length

/-- Branches of a conditional, `count` of them from number `n` on. An empty condition is false. -/
def branches (site : Site) : (count n : Nat) → Script String
  | 0, _ => .done ""
  | count + 1, n => do
      let condition ← site.valueOr (conditionSlot n) .none "0"
      let body ← site.statements (bodySlot n)
      let more ← branches site count (n + 1)
      return (if n = 0 then "" else " else ") ++ "if (" ++ condition ++ ") begin\n" ++ body ++
        "end" ++ more

/-- The last branch of a conditional, if its slot is there. -/
def otherwise (site : Site) : Script String :=
  if site.node.statements.contains "ELSE" then do
    let body ← site.statements "ELSE"
    return " else begin\n" ++ body ++ "end"
  else .done ""

/-- A chain of conditions, with or without a last branch. -/
def conditional : Handler :=
  .statement fun site => do
    let chain ← branches site (branchCount site.node) 0
    let last ← otherwise site
    return chain ++ last ++ "\n"

/-- A conditional of two branches with a condition each. -/
def twoWayConditional : Handler :=
  .statement fun site => do
    let first ← site.valueOr "condition_if" .none "0"
    let yes ← site.statements "if_code"
    let second ← site.valueOr "condition_else" .none "0"
    let no ← site.statements "else_code"
    return "if (" ++ first ++ ") begin\n" ++ yes ++ "end\nelse if (" ++ second ++ ") begin\n" ++
      no ++ "end\n"

end BlockVerilog.Handlers
