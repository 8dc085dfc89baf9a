import BlockVerilog.Pass.Handler

/-!
The lines that open and close a module.
-/

namespace BlockVerilog.Handlers

/-- What an untouched port list holds. -/
def portListPlaceholder : String := "varNames"

/-- The head of a module; an empty or untouched port list gives none. -/
def moduleHead : Handler :=
  .statement fun site =>
    let ports := Text.trimmed (site.field "varNames")
    let list := if ports = "" ∨ ports = portListPlaceholder then "()" else " (" ++ ports ++ ")"
    .done ("module " ++ site.field "modName" ++ list ++ ";\n")

/-- The head of a module without ports. -/
def testHead : Handler :=
  .statement fun site => .done ("module " ++ site.field "modName" ++ "();\n")

/-- The same line for every node. -/
def fixedLine (text : String) : Handler := .statement fun _ => .done (text ++ "\n")

end BlockVerilog.Handlers
