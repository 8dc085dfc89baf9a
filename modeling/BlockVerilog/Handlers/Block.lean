import BlockVerilog.Pass.Handler

/-!
Blocks that run statements: on changes, once, or after a delay.
-/

namespace BlockVerilog.Handlers

/-- The key of the declaration of the time scale. -/
def timescaleKey : String := "timescale"

/-- Declare the time scale, if one is set. -/
def declareTimescale (site : Site) : Script Unit :=
  match site.config.timescale with
  | none => .done ()
  | some scale => .define timescaleKey ("`timescale " ++ scale) fun _ => .done ()

/-- A block that runs on every change in its sensitivity list; an empty list means any. -/
def alwaysBlock : Handler :=
  .statement fun site => do
    let condition ← site.valueOr "condition" .none "*"
    let body ← site.statements "body"
    return "always @ (" ++ condition ++ ")\nbegin\n" ++ body ++ "end\n"

/-- A block that runs again and again after a delay. -/
def alwaysDelay : Handler :=
  .statement fun site => do
    declareTimescale site
    let delay ← site.valueOr "delay" .atomic "1"
    let body ← site.statements "code"
    return "always #" ++ delay ++ " begin\n" ++ body ++ "end\n"

/-- A block that runs once. -/
def initialBlock (opening closing : String) : Handler :=
  .statement fun site => do
    let body ← site.statements "body"
    return "initial " ++ opening ++ "\n" ++ body ++ closing ++ "\n"

/-- A delay in front of statements. -/
def delay : Handler :=
  .statement fun site => do
    declareTimescale site
    let delay ← site.valueOr "arg1" .atomic "1"
    let body ← site.statements "arg2"
    return "#" ++ delay ++ "\n" ++ body

end BlockVerilog.Handlers
