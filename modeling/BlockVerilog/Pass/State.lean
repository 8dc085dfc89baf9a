import BlockVerilog.Config
import BlockVerilog.Declarations
import BlockVerilog.Names
import BlockVerilog.Pass.Error

/-!
What a pass changes as it runs. A failed step keeps what it changed before it failed.
-/

namespace BlockVerilog

structure PassState where
  names : Names
  declarations : Declarations
  /-- How many fresh names were made up. -/
  fresh : Nat

/-- A computation of a pass. -/
abbrev Pass := ExceptT PassError (StateM PassState)

namespace PassState

/-- Before anything was generated. -/
def initial (config : Config) : PassState := ⟨.withReserved config.reserved, ∅, 0⟩

/-- No names and no declarations; the reserved words stay. -/
def reset (state : PassState) : PassState := ⟨state.names.reset, ∅, 0⟩

/-- The name of a variable, given from a requested text on first use. -/
def nameVariable (state : PassState) (id requested : String) : String × PassState :=
  let (name, names) := state.names.allocate (.variable, id) requested
  (name, { state with names := names })

/-- A name for the next helper. Its identity is the wanted text and the count of helpers, which no
two of them share. -/
def nameHelper (state : PassState) (wanted : String) : String × PassState :=
  let identity := wanted ++ "#" ++ toString state.fresh
  let (name, names) := state.names.allocate (.developer, identity) wanted
  (name, { state with names := names, fresh := state.fresh + 1 })

/-- Declare a text once. -/
def declare (state : PassState) (key text : String) : Bool × PassState :=
  let (isNew, declarations) := state.declarations.define key text
  (isNew, { state with declarations := declarations })

/-- A state for a new pass: the variables of the workspace have their names. -/
def named (state : PassState) (vars : List (String × String)) : PassState :=
  vars.foldl (fun state entry => (state.nameVariable entry.1 entry.2).2) state.reset

end PassState

end BlockVerilog
