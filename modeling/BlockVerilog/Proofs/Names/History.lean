import Mathlib.Data.List.Dedup
import BlockVerilog.Proofs.Names.Fresh

/-!
Names over a whole history of calls.

A history is what the caller sees, the calls with their answers. It says by itself which identity
holds which name; `Accounts` ties the names that are kept to it, and every call keeps that up.
-/

namespace BlockVerilog.Names

/-- What is asked of the names. -/
inductive Call where
  | allocate (identity : Identity) (requested : String)
  | lookup (identity : Identity)
  | reset
  deriving DecidableEq, Repr

/-- A call with its answer. -/
inductive Event where
  | allocated (identity : Identity) (requested name : String)
  | lookedUp (identity : Identity) (answer : Option String)
  | reset
  deriving DecidableEq, Repr

def Call.perform : Call → Names → Event × Names
  | allocate identity requested, names =>
      let (name, after) := names.allocate identity requested
      (.allocated identity requested name, after)
  | lookup identity, names => (.lookedUp identity (names.lookup identity), names)
  | reset, names => (.reset, names.reset)

/-- Events, the latest first. -/
abbrev History := List Event

/-- The history of calls, the latest first, and the names that they leave. -/
def run (reserved : List String) : List Call → History × Names
  | [] => ([], withReserved reserved)
  | call :: earlier =>
      let (history, names) := run reserved earlier
      let (event, after) := call.perform names
      (event :: history, after)

namespace History

/-- The names handed out since the last reset with the identities they went to, the latest first. -/
def given : History → List (Identity × String)
  | [] => []
  | .reset :: _ => []
  | .lookedUp _ _ :: earlier => given earlier
  | .allocated identity _ name :: earlier => (identity, name) :: given earlier

/-- The name that an identity holds: the one it was handed last. -/
def held (history : History) (identity : Identity) : Option String :=
  (history.given.find? (·.1 = identity)).map Prod.snd

/-- The identities that hold a name. -/
def holders (history : History) : List Identity := (history.given.map Prod.fst).dedup

/-- A name that an identity holds, or a word that is never given. -/
def Takes (history : History) (reserved : List String) (name : String) : Prop :=
  (∃ identity, history.held identity = some name) ∨ name ∈ reserved ∨ name ∈ keywords

end History

/-- What a request without a name gets: its identifier or, where that is taken, the identifier with
the least number from two on that makes it free. At most as many numbers are tried as names are
taken. -/
inductive Chosen (history : History) (reserved : List String) (requested : String) : String → Prop
  | base (free : ¬ history.Takes reserved (Identifier.safeName requested)) :
      Chosen history reserved requested (Identifier.safeName requested)
  | numbered (n : Nat) (taken : history.Takes reserved (Identifier.safeName requested))
      (least : ∀ m, 2 ≤ m → m < n →
        history.Takes reserved (suffixed (Identifier.safeName requested) m))
      (free : ¬ history.Takes reserved (suffixed (Identifier.safeName requested) n))
      (few : n ≤ history.holders.length + reserved.dedup.length + keywords.length + 1) :
      Chosen history reserved requested (suffixed (Identifier.safeName requested) n)

/-- The answer that a call gets after a history. -/
def Event.IsRight (reserved : List String) (earlier : History) : Event → Prop
  | allocated identity requested name =>
      IsLegal name ∧ name ∉ reserved ∧
        match earlier.held identity with
        | some known => name = known
        | none => Chosen earlier reserved requested name
  | lookedUp identity answer => answer = earlier.held identity
  | reset => True

/-- Names that never collide, over the history of the calls that they were kept in. -/
structure Apart (reserved : List String) (history : History) (names : Names) : Prop where
  answers : ∀ later event earlier, history = later ++ event :: earlier →
    event.IsRight reserved earlier
  /-- Two identities hold the same name only if they are equal. -/
  distinct : ∀ first second name, history.held first = some name →
    history.held second = some name → first = second
  /-- What was handed out since the last reset is still held. -/
  stays : ∀ entry ∈ history.given, history.held entry.1 = some entry.2
  lookup : ∀ identity, names.lookup identity = history.held identity
  size : names.size = history.holders.length
  /-- As many names were handed out as there are identities that hold one. -/
  names : names.size = (history.given.map Prod.snd).dedup.length

namespace History

variable {history : History}

theorem held_allocated (named identity : Identity) (requested name : String) :
    held (.allocated named requested name :: history) identity =
      if identity = named then some name else history.held identity := by
  by_cases same : identity = named
  · simp [held, given, same]
  · simp [held, given, same, Ne.symm same]

theorem mem_holders_iff {identity : Identity} :
    identity ∈ history.holders ↔ ∃ name, history.held identity = some name := by
  simp only [holders, held, List.mem_dedup, List.mem_map, Option.map_eq_some_iff]
  constructor
  · rintro ⟨entry, listed, rfl⟩
    have found : (history.given.find? (·.1 = entry.1)).isSome :=
      List.find?_isSome.mpr ⟨entry, listed, by simp⟩
    obtain ⟨first, same⟩ := Option.isSome_iff_exists.mp found
    exact ⟨first.2, first, same, rfl⟩
  · rintro ⟨_, entry, found, rfl⟩
    exact ⟨entry, List.mem_of_find?_eq_some found, by simpa using List.find?_some found⟩

end History

/-- Names that were kept over a history, so far as the next call depends on them. -/
structure Accounts (reserved : List String) (history : History) (names : Names) : Prop where
  words : names.reserved = reserved
  lookup : ∀ identity, names.lookup identity = history.held identity
  stays : ∀ entry ∈ history.given, history.held entry.1 = some entry.2
  distinct : names.assigned.values.Nodup
  legal : ∀ name ∈ names.assigned.values, IsLegal name ∧ name ∉ reserved

section

variable {reserved : List String} {history : History} {names : Names}

theorem Accounts.mem_values_iff (accounts : Accounts reserved history names) {name : String} :
    name ∈ names.assigned.values ↔ ∃ identity, history.held identity = some name := by
  rw [OrderedMap.mem_values_iff]
  exact exists_congr fun identity => accounts.lookup identity ▸ Iff.rfl

theorem Accounts.mem_taken_iff (accounts : Accounts reserved history names) {name : String} :
    name ∈ names.taken ↔ history.Takes reserved name := by
  simp only [taken, List.mem_append, accounts.mem_values_iff, accounts.words, History.Takes,
    or_assoc]

theorem Accounts.size_eq (accounts : Accounts reserved history names) :
    names.size = history.holders.length := by
  rw [Names.size, ← OrderedMap.length_keys]
  have same : names.assigned.keys.Perm history.holders := by
    refine (List.perm_ext_iff_of_nodup names.assigned.nodup_keys (List.nodup_dedup _)).mpr ?_
    intro identity
    change identity ∈ names.assigned.keys ↔ identity ∈ history.holders
    rw [History.mem_holders_iff, OrderedMap.mem_keys_iff]
    exact exists_congr fun name => accounts.lookup identity ▸ Iff.rfl
  exact same.length_eq

theorem Accounts.size_eq_names (accounts : Accounts reserved history names) :
    names.size = (history.given.map Prod.snd).dedup.length := by
  have counted : names.size = names.assigned.values.length := by
    simp [Names.size, OrderedMap.size, OrderedMap.values]
  have same : names.assigned.values.Perm (history.given.map Prod.snd).dedup := by
    rw [List.perm_ext_iff_of_nodup accounts.distinct (List.nodup_dedup _)]
    intro name
    rw [accounts.mem_values_iff, List.mem_dedup, List.mem_map]
    constructor
    · rintro ⟨identity, holds⟩
      obtain ⟨entry, found, rfl⟩ := Option.map_eq_some_iff.mp holds
      exact ⟨entry, List.mem_of_find?_eq_some found, rfl⟩
    · rintro ⟨entry, listed, rfl⟩
      exact ⟨entry.1, accounts.stays entry listed⟩
  rw [counted, same.length_eq]

theorem accounts_nil (reserved : List String) : Accounts reserved [] (withReserved reserved) where
  words := rfl
  lookup _ := rfl
  stays _ listed := by cases listed
  distinct := List.nodup_nil
  legal _ listed := by cases listed

theorem Accounts.reset (accounts : Accounts reserved history names) :
    Accounts reserved (.reset :: history) names.reset where
  words := accounts.words
  lookup _ := rfl
  stays _ listed := by cases listed
  distinct := List.nodup_nil
  legal _ listed := by cases listed

theorem Accounts.lookedUp (accounts : Accounts reserved history names) (identity : Identity)
    (answer : Option String) :
    Accounts reserved (.lookedUp identity answer :: history) names where
  words := accounts.words
  lookup := accounts.lookup
  stays := accounts.stays
  distinct := accounts.distinct
  legal := accounts.legal

/-- An identity that holds a name gets it again. -/
theorem Accounts.again (accounts : Accounts reserved history names) {identity : Identity}
    {name : String} (holds : history.held identity = some name) (requested : String) :
    Accounts reserved (.allocated identity requested name :: history) names := by
  have same : ∀ other, History.held (.allocated identity requested name :: history) other =
      history.held other := by
    intro other
    rw [History.held_allocated]
    split
    next here => rw [here, holds]
    next => rfl
  refine ⟨accounts.words, fun other => ?_, fun entry listed => ?_, accounts.distinct,
    accounts.legal⟩
  · rw [same, accounts.lookup]
  · rw [same]
    rcases List.mem_cons.mp listed with rfl | before
    · exact holds
    · exact accounts.stays entry before

/-- An identity without a name gets one that no other holds. -/
theorem Accounts.first (accounts : Accounts reserved history names) {identity : Identity}
    (free : history.held identity = none) (requested : String) :
    Accounts reserved (.allocated identity requested (names.freeName requested) :: history)
      { names with assigned := names.assigned.insert identity (names.freeName requested) } := by
  have absent : names.assigned.get? identity = none := (accounts.lookup identity).trans free
  have fresh : names.freeName requested ∉ names.taken := freeName_not_mem_taken names requested
  have values := OrderedMap.values_insert_of_get?_eq_none (names.freeName requested) absent
  refine ⟨accounts.words, fun other => ?_, fun entry listed => ?_, ?_, fun name listed => ?_⟩
  · rw [History.held_allocated, ← accounts.lookup, Names.lookup, OrderedMap.get?_insert]
    rfl
  · rw [History.held_allocated]
    rcases List.mem_cons.mp listed with rfl | before
    · exact if_pos rfl
    · have holds := accounts.stays entry before
      rw [if_neg fun same => by simp [← same, holds] at free, holds]
  · rw [values, List.nodup_append]
    refine ⟨accounts.distinct, List.nodup_singleton _, fun name listed last isLast => ?_⟩
    rw [List.mem_singleton] at isLast
    rintro rfl
    exact fresh (isLast ▸ List.mem_append_left _ (List.mem_append_left _ listed))
  · rw [values, List.mem_append, List.mem_singleton] at listed
    rcases listed with before | rfl
    · exact accounts.legal name before
    · refine ⟨isLegal_freeName names requested, fun word => fresh ?_⟩
      exact List.mem_append_left _ (List.mem_append_right _ (accounts.words ▸ word))

theorem Accounts.chosen (accounts : Accounts reserved history names) (requested : String) :
    Chosen history reserved requested (names.freeName requested) := by
  rw [freeName_eq]
  split
  next free => exact .base fun takes => isFree_iff.mp free (accounts.mem_taken_iff.mpr takes)
  next used =>
    have baseTaken : Identifier.safeName requested ∈ names.taken := by
      rwa [isFree_iff, not_not] at used
    obtain ⟨_, free, least⟩ := freeSuffix_spec (Identifier.safeName requested) 2
      (Nat.le_refl names.taken.length)
    refine .numbered _ (accounts.mem_taken_iff.mp baseTaken)
      (fun m above below => accounts.mem_taken_iff.mp (least m above below))
      (fun takes => free (accounts.mem_taken_iff.mpr takes)) ?_
    have within : names.taken ⊆ names.assigned.values ++ reserved.dedup ++ keywords := by
      intro name listed
      simpa [taken, accounts.words] using listed
    have bounded := freeSuffix_le (Nat.le_refl names.taken.length) baseTaken within
    have counted : names.assigned.values.length = history.holders.length := by
      rw [← accounts.size_eq]
      simp [Names.size, OrderedMap.size, OrderedMap.values]
    simp only [List.length_append, counted] at bounded
    exact bounded

/-- Two identities never hold the same name. -/
theorem Accounts.injective (accounts : Accounts reserved history names) {first second : Identity}
    {name : String} (holds : history.held first = some name)
    (alsoHolds : history.held second = some name) : first = second := by
  rw [← accounts.lookup] at holds alsoHolds
  have listed := OrderedMap.get?_eq_some_iff.mp holds
  have alsoListed := OrderedMap.get?_eq_some_iff.mp alsoHolds
  exact congrArg Prod.fst (List.inj_on_of_nodup_map accounts.distinct listed alsoListed rfl)

/-- A call keeps the account up, and is answered right. -/
theorem Accounts.perform (accounts : Accounts reserved history names) (call : Call) :
    (call.perform names).1.IsRight reserved history ∧
      Accounts reserved ((call.perform names).1 :: history) (call.perform names).2 := by
  cases call with
  | allocate identity requested =>
      have lookup := accounts.lookup identity
      simp only [Call.perform, allocate, Event.IsRight]
      cases holds : history.held identity with
      | some known =>
          rw [holds] at lookup
          have isLegal := accounts.legal known (accounts.mem_values_iff.mpr ⟨identity, holds⟩)
          simp only [lookup]
          exact ⟨⟨isLegal.1, isLegal.2, trivial⟩, accounts.again holds requested⟩
      | none =>
          rw [holds] at lookup
          have fresh := freeName_not_mem_taken names requested
          simp only [lookup]
          refine ⟨⟨isLegal_freeName names requested, fun word => fresh ?_,
            accounts.chosen requested⟩, accounts.first holds requested⟩
          exact List.mem_append_left _ (List.mem_append_right _ (accounts.words ▸ word))
  | lookup identity => exact ⟨accounts.lookup identity, accounts.lookedUp identity _⟩
  | reset => exact ⟨trivial, accounts.reset⟩

end

theorem accounts_run (reserved : List String) (calls : List Call) :
    Accounts reserved (run reserved calls).1 (run reserved calls).2 := by
  induction calls with
  | nil => exact accounts_nil reserved
  | cons call earlier inductionHypothesis => exact (inductionHypothesis.perform call).2

theorem isRight_of_run (reserved : List String) (calls : List Call) {later earlier : History}
    {event : Event} (happened : (run reserved calls).1 = later ++ event :: earlier) :
    event.IsRight reserved earlier := by
  induction calls generalizing later with
  | nil => simp [run] at happened
  | cons call before inductionHypothesis =>
      cases later with
      | nil =>
          obtain ⟨rfl, rfl⟩ := List.cons.inj happened
          exact ((accounts_run reserved before).perform call).1
      | cons last later => exact inductionHypothesis (List.cons.inj happened).2

/-- Whatever is called in whatever order, names never collide. -/
theorem names_stay_apart (reserved : List String) (calls : List Call) :
    Apart reserved (run reserved calls).1 (run reserved calls).2 := by
  have accounts := accounts_run reserved calls
  constructor
  case answers => exact fun _ _ _ happened => isRight_of_run reserved calls happened
  case distinct => exact fun _ _ _ holds alsoHolds => accounts.injective holds alsoHolds
  case stays => exact accounts.stays
  case lookup => exact accounts.lookup
  case size => exact accounts.size_eq
  case names => exact accounts.size_eq_names

end BlockVerilog.Names
