import BlockVerilog.Pass.Handler

/-!
Expressions of a fixed form around their operands.
-/

namespace BlockVerilog.Handlers

/-- A negation; a missing operand is one. -/
def negation (sign : String) : Handler :=
  .expression fun site => do
    let operand ← site.valueOr "BOOL" Operator.logicNegation.level "1"
    return (sign ++ operand, Operator.logicNegation.level)

/-- A choice between two values. -/
def ternary : Handler :=
  .expression fun site => do
    let condition ← site.valueOr "IF" .logicOr "0"
    let yes ← site.valueOr "THEN" .conditional "X"
    let no ← site.valueOr "ELSE" .conditional "X"
    return (condition ++ " ? " ++ yes ++ " : " ++ no, .conditional)

/-- An edge of a signal, for sensitivity lists. -/
def edge (keyword : String) : Handler :=
  .expression fun site => do
    let signal ← site.valueOr "NAME" .member "X"
    return (keyword ++ " " ++ signal, .none)

/-- One bit of a signal. -/
def bitSelect : Handler :=
  .expression fun site => do
    let signal ← site.valueOr "NAME" .member "X"
    let index ← site.valueOr "number" .none "0"
    return (signal ++ "[" ++ index ++ "]", .member)

/-- Two values side by side. -/
def concatenation : Handler :=
  .expression fun site => do
    let first ← site.valueOr "arg1" .none "X"
    let second ← site.valueOr "arg2" .none "X"
    return ("\x7b" ++ first ++ ", " ++ second ++ "\x7d", .atomic)

/-- A value side by side with itself. -/
def replication : Handler :=
  .expression fun site => do
    let count ← site.valueOr "count" .atomic "1"
    let value ← site.valueOr "value" .none "X"
    return ("\x7b" ++ count ++ "\x7b" ++ value ++ "\x7d\x7d", .atomic)

end BlockVerilog.Handlers
