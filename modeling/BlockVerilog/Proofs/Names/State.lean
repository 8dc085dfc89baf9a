import BlockVerilog.Pass.State
import BlockVerilog.Proofs.Names.Fresh

/-!
The names in the states of a pass.

Names in every state that a pass can be in are legal and distinct. An identity that has its name
keeps it until the names are reset.
-/

namespace BlockVerilog.PassState

/-- The states that a pass can be in. -/
inductive IsReached : PassState → Prop
  | initial (config : Config) : IsReached (.initial config)
  | reset {state : PassState} (before : IsReached state) : IsReached state.reset
  | nameVariable {state : PassState} (before : IsReached state) (id requested : String) :
      IsReached (state.nameVariable id requested).2
  | nameHelper {state : PassState} (before : IsReached state) (wanted : String) :
      IsReached (state.nameHelper wanted).2
  | declare {state : PassState} (before : IsReached state) (key text : String) :
      IsReached (state.declare key text).2

/-- What holds before any name is given, and still holds after each, holds in every state. -/
theorem IsReached.holds_names {holds : Names → Prop} {state : PassState}
    (reached : state.IsReached) (begins : ∀ words, holds (.withReserved words))
    (goesOn : ∀ names identity requested, holds names →
      holds (names.allocate identity requested).2) : holds state.names := by
  induction reached with
  | initial config => exact begins config.reserved
  | reset _ _ => exact begins _
  | nameVariable _ id requested inductionHypothesis =>
      exact goesOn _ (.variable, id) requested inductionHypothesis
  | nameHelper _ wanted inductionHypothesis => exact goesOn _ _ wanted inductionHypothesis
  | declare _ _ _ inductionHypothesis => exact inductionHypothesis

theorem IsReached.allLegal {state : PassState} (reached : state.IsReached) :
    state.names.AllLegal :=
  reached.holds_names Names.allLegal_withReserved fun _ identity requested legal =>
    legal.allocate identity requested

theorem IsReached.allDistinct {state : PassState} (reached : state.IsReached) :
    state.names.AllDistinct :=
  reached.holds_names Names.allDistinct_withReserved fun _ identity requested distinct =>
    distinct.allocate identity requested

/-- What holds of a reset state, and still holds after each variable is named, holds when a pass
begins. -/
theorem holds_named {holds : PassState → Prop} {state : PassState} (begins : holds state.reset)
    (goesOn : ∀ state id requested, holds state → holds (state.nameVariable id requested).2)
    (vars : List (String × String)) : holds (state.named vars) := by
  have kept : ∀ before : PassState, holds before →
      holds (vars.foldl (fun state entry => (state.nameVariable entry.1 entry.2).2) before) := by
    induction vars with
    | nil => exact fun _ held => held
    | cons entry vars inductionHypothesis =>
        exact fun before held => inductionHypothesis _ (goesOn before entry.1 entry.2 held)
  exact kept state.reset begins

/-- Names of one state are those of a later one too. -/
def Keeps (state later : PassState) : Prop :=
  ∀ identity name, state.names.lookup identity = some name →
    later.names.lookup identity = some name

theorem Keeps.refl (state : PassState) : Keeps state state := fun _ _ given => given

theorem Keeps.trans {first second third : PassState} (keeps : Keeps first second)
    (keepsOn : Keeps second third) : Keeps first third := fun identity name given =>
  keepsOn identity name (keeps identity name given)

theorem keeps_nameVariable (state : PassState) (id requested : String) :
    Keeps state (state.nameVariable id requested).2 := fun _ _ given =>
  Names.lookup_allocate_of_lookup given

theorem lookup_nameVariable (state : PassState) (id requested : String) :
    (state.nameVariable id requested).2.names.lookup (.variable, id) =
      some (state.nameVariable id requested).1 :=
  Names.lookup_allocate state.names (.variable, id) requested

theorem keeps_foldl_nameVariable (state : PassState) (vars : List (String × String)) :
    Keeps state (vars.foldl (fun state entry => (state.nameVariable entry.1 entry.2).2) state) := by
  induction vars generalizing state with
  | nil => exact Keeps.refl state
  | cons entry vars inductionHypothesis =>
      exact (keeps_nameVariable state entry.1 entry.2).trans (inductionHypothesis _)

/-- When a pass begins, every variable of the workspace has a name. -/
theorem exists_lookup_named (state : PassState) {vars : List (String × String)}
    {entry : String × String} (listed : entry ∈ vars) :
    ∃ name, (state.named vars).names.lookup (.variable, entry.1) = some name := by
  obtain ⟨before, after, rfl⟩ := List.append_of_mem listed
  rw [named, List.foldl_append, List.foldl_cons]
  exact ⟨_, keeps_foldl_nameVariable _ after _ _ (lookup_nameVariable _ entry.1 entry.2)⟩

end BlockVerilog.PassState
