import BlockVerilog.Number.Decimal
import BlockVerilog.Pass.Handler

/-!
Ports and nets: their declarations, and the gates and assignments that drive them.
-/

namespace BlockVerilog.Handlers

/-- The bit range of a declared width, none for a single bit. A width that is no number of 64 bits
is reduced by one in the text. -/
def bitRange? (size : String) : Option String :=
  let width := Text.trimmed size
  match Numeral.parseInt width.toList with
  | some n => if n ≤ 1 then none else some ("[" ++ toString (n - 1) ++ ":0]")
  | none => if width = "" then none else some ("[" ++ width ++ "-1:0]")

/-- The declaration of a port or net: `wire [7:0] bus;`. -/
def port (keyword : String) : Handler :=
  .statement fun site => do
    let size ← site.value "size" Operator.minus.level
    let range := ((size.bind bitRange?).map fun range => range ++ " ").getD ""
    return keyword ++ " " ++ range ++ site.field "NAME" ++ ";\n"

/-- An instance of a gate with two inputs: `and g1 (out, a, b);`. -/
def gate (keyword : String) : Handler :=
  .statement fun site => do
    let first ← site.valueOr "arg1" .none "X"
    let second ← site.valueOr "arg2" .none "X"
    let given := Text.trimmed (site.field "gName")
    let name := if given = "" then "" else given ++ " "
    return keyword ++ " " ++ name ++ "(" ++ site.field "oName" ++ ", " ++ first ++ ", " ++
      second ++ ");\n"

/-- An inverter. -/
def inverter : Handler :=
  .statement fun site => do
    let input ← site.valueOr "NAME" .none "X"
    return "not (" ++ site.field "out" ++ ", " ++ input ++ ");\n"

/-- An assignment to a variable, with `lead` before its name and `sign` behind it. -/
def assignment (lead sign : String) : Handler :=
  .statement fun site =>
    .variableName (site.field "var") fun target => do
      let value ← site.valueOr "NAME" .none "X"
      return lead ++ target ++ " " ++ sign ++ " " ++ value ++ ";\n"

end BlockVerilog.Handlers
