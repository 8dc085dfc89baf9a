import BlockVerilog.Pass.Handler
import BlockVerilog.Text.Quoted

/-!
Calls of system tasks.
-/

namespace BlockVerilog.Handlers

/-- Show a text, whatever it holds. -/
def display : Handler :=
  .statement fun site =>
    .done ("$display(\"" ++ String.ofList (Text.escapeLiteral (site.field "text").toList) ++
      "\");\n")

/-- Show signals whenever they change. -/
def monitor : Handler :=
  .statement fun site => .done ("$monitor(" ++ Text.trimmed (site.field "names") ++ ");\n")

end BlockVerilog.Handlers
