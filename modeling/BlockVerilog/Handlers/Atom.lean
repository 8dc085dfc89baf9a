import BlockVerilog.Pass.Handler

/-!
Expressions without operators: constants, numbers and the names of variables.
-/

namespace BlockVerilog.Handlers

/-- A text without operators. -/
def atom (text : String) : Expression := (text, .atomic)

/-- The same atom for every node. -/
def constant (text : String) : Handler := .expression fun _ => .done (atom text)

/-- A truth value as a bit; anything but `TRUE` is false. -/
def truthValue : Handler :=
  .expression fun site => .done (atom (if site.field "BOOL" = "TRUE" then "1" else "0"))

/-- A number in its shortest form. A negative one binds like a negation, and what is no finite
number is zero. -/
def numberExpression (value : Option FieldValue) : Expression :=
  match (value.bind FieldValue.asNumber?).filter Binary64.isFinite with
  | none => atom "0"
  | some x => (x.text, if x.isNegative then Operator.negation.level else .atomic)

def number : Handler :=
  .expression fun site => .done (numberExpression (site.node.fields.get? "NUM"))

/-- The name of a variable. -/
def variableRead : Handler :=
  .expression fun site => .variableName (site.field "VAR") fun name => .done (atom name)

end BlockVerilog.Handlers
