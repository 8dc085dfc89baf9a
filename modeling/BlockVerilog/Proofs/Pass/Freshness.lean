import BlockVerilog.Proofs.Pass.Steps

/-!
Helper names are fresh.

The identity of a helper is the wanted text with the count of helpers behind it. The count can be
read off whatever the text holds, so that no two helpers of a pass share an identity, and what has
an identity of its own has a name of its own.
-/

namespace BlockVerilog

namespace Names

variable {names : Names} {identity other : Identity} {requested name : String}

theorem fst_allocate_of_unnamed (unnamed : names.lookup identity = none) :
    (names.allocate identity requested).1 = names.freeName requested := by
  rw [allocate, unnamed]

theorem lookup_of_allocate
    (given : (names.allocate identity requested).2.lookup other = some name) :
    other = identity ∨ names.lookup other = some name := by
  unfold allocate at given
  cases held : names.lookup identity with
  | some _ =>
      rw [held] at given
      exact .inr given
  | none =>
      rw [held, lookup, OrderedMap.get?_insert] at given
      split at given
      next same => exact .inl same
      next => exact .inr given

/-- A legal name that may be given because nothing has it. -/
structure IsNew (names : Names) (name : String) : Prop where
  legal : IsLegal name
  unreserved : name ∉ names.reserved
  unheld : ∀ identity, names.lookup identity ≠ some name

theorem isNew_freeName (names : Names) (requested : String) :
    names.IsNew (names.freeName requested) where
  legal := isLegal_freeName names requested
  unreserved listed := freeName_not_mem_taken names requested
    (List.mem_append_left _ (List.mem_append_right _ listed))
  unheld _ := lookup_ne_freeName

end Names

namespace PassState

variable {state later : PassState}

/-- The identity of the helper that is made up next. -/
def nextHelper (state : PassState) (wanted : String) : Identity :=
  (.developer, wanted ++ "#" ++ toString state.fresh)

/-- Helpers are numbered in the order they are made up in. -/
theorem IsReached.numbered (reached : state.IsReached) {id name : String}
    (given : state.names.lookup (.developer, id) = some name) :
    ∃ wanted n, n < state.fresh ∧ id = wanted ++ "#" ++ toString n := by
  induction reached generalizing name with
  | initial config => cases given
  | reset _ _ => cases given
  | nameVariable _ other requested inductionHypothesis =>
      rcases Names.lookup_of_allocate given with same | before
      · cases same
      · exact inductionHypothesis before
  | @nameHelper state _ wanted inductionHypothesis =>
      rcases Names.lookup_of_allocate given with same | before
      · exact ⟨wanted, state.fresh, Nat.lt_succ_self _, congrArg Prod.snd same⟩
      · obtain ⟨earlier, n, counted, named⟩ := inductionHypothesis before
        exact ⟨earlier, n, Nat.lt_succ_of_lt counted, named⟩
  | declare _ _ _ inductionHypothesis => exact inductionHypothesis given

theorem IsReached.lookup_nextHelper (reached : state.IsReached) (wanted : String) :
    state.names.lookup (state.nextHelper wanted) = none := by
  by_contra held
  obtain ⟨name, given⟩ := Option.ne_none_iff_exists'.mp held
  -- Texts that hold marks and digits themselves leave the number behind the last mark readable.
  obtain ⟨earlier, n, counted, same⟩ := reached.numbered given
  have := (Numerals.numbered_injective same).2
  omega

theorem IsReached.isNew_nameHelper (reached : state.IsReached) (wanted : String) :
    state.names.IsNew (state.nameHelper wanted).1 := by
  have free : (state.nameHelper wanted).1 = state.names.freeName wanted :=
    Names.fst_allocate_of_unnamed (reached.lookup_nextHelper wanted)
  rw [free]
  exact Names.isNew_freeName state.names wanted

theorem lookup_nameHelper (state : PassState) (wanted : String) :
    (state.nameHelper wanted).2.names.lookup (state.nextHelper wanted) =
      some (state.nameHelper wanted).1 :=
  Names.lookup_allocate state.names _ _

/-- What is new later was new before. -/
theorem LeadsTo.isNew (leads : state.LeadsTo later) {name : String}
    (new : later.names.IsNew name) : state.names.IsNew name where
  legal := new.legal
  unreserved := leads.reserved ▸ new.unreserved
  unheld identity given := new.unheld identity (leads.keeps identity name given)

end PassState

namespace Generator

open Pass PassState

/-- A request for a name. -/
inductive NameRequest where
  /-- For the name of a variable, by its id. -/
  | variableName (id : String)
  /-- For a helper name like this one. -/
  | freshName (wanted : String)
  deriving DecidableEq, Repr

def NameRequest.isHelper : NameRequest → Bool
  | variableName _ => false
  | freshName _ => true

def NameRequest.ask (gen : Generator) : NameRequest → Pass String
  | variableName id => gen.variableName id
  | freshName wanted => Generator.freshName wanted

/-- Make requests one after the other, and note the name that each is given. -/
def askAll (gen : Generator) : List NameRequest → Pass (List (NameRequest × String))
  | [] => return []
  | request :: rest => do
      let name ← request.ask gen
      return (request, name) :: (← gen.askAll rest)

/-- Names that were given from a state on, with the state they leave. -/
structure Grants (state : PassState) (given : List (NameRequest × String)) (after : PassState) :
    Prop where
  leads : state.LeadsTo after
  named : ∀ id name, (NameRequest.variableName id, name) ∈ given →
    after.names.lookup (.variable, id) = some name
  helpers : ∀ entry ∈ given, entry.1.isHelper → state.names.IsNew entry.2
  apart : given.Pairwise fun first second =>
    first.1.isHelper ∨ second.1.isHelper → first.2 ≠ second.2

section

variable {state between after : PassState} {rest : List (NameRequest × String)}

theorem grants_nil (state : PassState) : Grants state [] state where
  leads := LeadsTo.refl state
  named _ _ listed := by cases listed
  helpers _ listed := by cases listed
  apart := .nil

/-- The name that a variable has is none of the helper names that follow. -/
theorem Grants.variableName (grants : Grants between rest after) (step : state.LeadsTo between)
    {id name : String} (held : between.names.lookup (.variable, id) = some name) :
    Grants state ((.variableName id, name) :: rest) after where
  leads := step.trans grants.leads
  named other otherName listed := by
    rcases List.mem_cons.mp listed with same | listed
    · cases same
      exact grants.leads.keeps _ _ held
    · exact grants.named other otherName listed
  helpers entry listed isHelper := by
    rcases List.mem_cons.mp listed with rfl | listed
    · cases isHelper
    · exact step.isNew (grants.helpers entry listed isHelper)
  apart := by
    refine .cons (fun entry listed oneHelps same => ?_) grants.apart
    have isHelper : entry.1.isHelper = true := oneHelps.resolve_left Bool.false_ne_true
    obtain rfl : name = entry.2 := same
    exact (grants.helpers entry listed isHelper).unheld _ held

/-- The name that a helper gets is no name that follows: a helper that follows gets a new one, and
a variable has another identity. -/
theorem Grants.freshName (grants : Grants between rest after) (step : state.LeadsTo between)
    (distinct : after.names.AllDistinct) {wanted name id : String}
    (held : between.names.lookup (.developer, id) = some name) (new : state.names.IsNew name) :
    Grants state ((.freshName wanted, name) :: rest) after where
  leads := step.trans grants.leads
  named other otherName listed := by
    rcases List.mem_cons.mp listed with same | listed
    · cases same
    · exact grants.named other otherName listed
  helpers entry listed isHelper := by
    rcases List.mem_cons.mp listed with rfl | listed
    · exact new
    · exact step.isNew (grants.helpers entry listed isHelper)
  apart := by
    refine .cons (fun entry listed _ same => ?_) grants.apart
    obtain ⟨request, otherName⟩ := entry
    obtain rfl : name = otherName := same
    cases request with
    | variableName other =>
        have otherHeld := grants.named other name listed
        cases distinct _ _ name (grants.leads.keeps _ _ held) otherHeld
    | freshName other => exact (grants.helpers _ listed rfl).unheld _ held

theorem Grants.cons {gen : Generator} {request : NameRequest} {name : String}
    (grants : Grants between rest after) (reached : state.IsReached)
    (asked : (request.ask gen).outcome state = (.ok name, between)) :
    Grants state ((request, name) :: rest) after := by
  cases request with
  | variableName id =>
      cases asked
      exact grants.variableName (goesBySteps_variableName gen id state)
        (lookup_nameVariable state id _)
  | freshName wanted =>
      cases asked
      have step := goesBySteps_freshName wanted state
      have reachedAfter := (step.trans grants.leads).isReached reached
      exact grants.freshName step reachedAfter.allDistinct (lookup_nameHelper state wanted)
        (reached.isNew_nameHelper wanted)

end

theorem NameRequest.exists_name (gen : Generator) (request : NameRequest) (state : PassState) :
    ∃ name after, (request.ask gen).outcome state = (.ok name, after) ∧ state.LeadsTo after := by
  cases request with
  | variableName id => exact ⟨_, _, rfl, goesBySteps_variableName gen id state⟩
  | freshName wanted => exact ⟨_, _, rfl, goesBySteps_freshName wanted state⟩

theorem exists_grants (gen : Generator) {state : PassState} (reached : state.IsReached)
    (requests : List NameRequest) :
    ∃ given after, (gen.askAll requests).outcome state = (.ok given, after) ∧
      given.map Prod.fst = requests ∧ Grants state given after := by
  induction requests generalizing state with
  | nil => exact ⟨[], state, rfl, rfl, grants_nil state⟩
  | cons request rest inductionHypothesis =>
      obtain ⟨name, between, asked, step⟩ := request.exists_name gen state
      obtain ⟨given, after, ran, listed, grants⟩ := inductionHypothesis (step.isReached reached)
      refine ⟨(request, name) :: given, after, ?_, ?_, grants.cons reached asked⟩
      · rw [askAll, outcome_bind_of_ok asked, outcome_bind_of_ok ran]
        rfl
      · rw [List.map_cons, listed]

/-- At any time of a pass every request for a name is granted, and the name of a helper is legal,
none of the reserved words, and no name that anything else got before or gets later. -/
theorem helper_names_are_fresh (gen : Generator) (state : PassState)
    (reached : gen.CanBeIn state) (requests : List NameRequest) :
    ∃ given after, (gen.askAll requests).outcome state = (.ok given, after) ∧
      given.map Prod.fst = requests ∧
      (∀ entry ∈ given, entry.1.isHelper →
        Names.IsLegal entry.2 ∧ entry.2 ∉ gen.config.reserved ∧
          ∀ identity, state.names.lookup identity ≠ some entry.2) ∧
      given.Pairwise fun first second =>
        first.1.isHelper ∨ second.1.isHelper → first.2 ≠ second.2 := by
  obtain ⟨given, after, ran, listed, grants⟩ := exists_grants gen reached.isReached requests
  refine ⟨given, after, ran, listed, fun entry member isHelper => ?_, grants.apart⟩
  have new := grants.helpers entry member isHelper
  exact ⟨new.legal, reached.reserved ▸ new.unreserved, new.unheld⟩

/-- A variable whose id looks like that of a helper, and a reserved word in between. -/
def entangled : Generator where
  graph := ⟨#[], [⟨"a#0", "a"⟩]⟩
  table := ∅
  config := ⟨"  ", 60, none, ["a2"]⟩

def entangledRequests : List NameRequest :=
  [.freshName "a", .variableName "a#1", .freshName "a#1", .variableName "a#0",
    .freshName "a#1#0"]

/-- A pass of its own begins, and one helper is made up. -/
def entangledState : PassState :=
  (((PassState.initial entangled.config).named entangled.namedVars).nameHelper "a").2

theorem entangled_helpers_are_fresh :
    entangled.CanBeIn entangledState ∧
      ∃ given after, (entangled.askAll entangledRequests).outcome entangledState =
          (.ok given, after) ∧
        given.map Prod.fst = entangledRequests ∧
        (∀ entry ∈ given, entry.1.isHelper →
          Names.IsLegal entry.2 ∧ entry.2 ∉ entangled.config.reserved ∧
            ∀ identity, entangledState.names.lookup identity ≠ some entry.2) ∧
        given.Pairwise fun first second =>
          first.1.isHelper ∨ second.1.isHelper → first.2 ≠ second.2 :=
  have reached : entangled.CanBeIn entangledState := CanBeIn.new.begin.step (.nameHelper _ "a")
  ⟨reached, helper_names_are_fresh entangled entangledState reached entangledRequests⟩

example : ((entangled.askAll entangledRequests).outcome entangledState).1 =
    .ok (entangledRequests.zip ["a4", "a_1", "a_12", "a", "a_1_0"]) := by
  rfl

end Generator

end BlockVerilog
