import Mathlib.Data.List.Dedup
import Mathlib.Order.Bounds.Basic
import BlockVerilog.Proofs.Loop
import BlockVerilog.Proofs.Names.Fresh

/-!
The search for a free name as a loop.

The loop has no bound of its own: it tries the base name, then the base name with two, three and so
on behind it, until a name is free. The numbered names are distinct, so that each turn uses up
another name that is not free.
-/

namespace BlockVerilog.Names

variable {names : Names} {base : String}

/-- One turn of the search: a name that is not free makes way for the next number. -/
def tryNext (names : Names) (base : String) (tried : Nat × String) : Option (Nat × String) :=
  if names.isFree tried.2 then none
  else some (tried.1 + 1, suffixed base (tried.1 + 1))

/-- An attempt with a number. -/
def attempt (base : String) (number : Nat) : Nat × String := (number, suffixed base number)

/-- The names that were given, each once. -/
def used (names : Names) : List String := names.assigned.values.dedup

/-- The words that are never given, each once. -/
def reservedWords (names : Names) : List String := (names.reserved ++ keywords).dedup

theorem taken_subset (names : Names) : names.taken ⊆ names.used ++ names.reservedWords := by
  intro name isTaken
  simpa [taken, used, reservedWords, or_assoc] using isTaken

theorem tryNext_of_free {number : Nat} {name : String} (free : names.isFree name = true) :
    names.tryNext base (number, name) = none := if_pos free

theorem tryNext_of_taken {number : Nat} {name : String} (isTaken : names.isFree name = false) :
    names.tryNext base (number, name) = some (attempt base (number + 1)) :=
  if_neg (Bool.eq_false_iff.mp isTaken)

/-- The numbers that make the base name free, from two on. -/
def freeNumbers (names : Names) (base : String) : Set Nat :=
  {number | 2 ≤ number ∧ names.isFree (suffixed base number) = true}

theorem isFree_eq_false_of_lt {least number : Nat}
    (isLeast : IsLeast (names.freeNumbers base) least)
    (fromTwo : 2 ≤ number) (below : number < least) :
    names.isFree (suffixed base number) = false := by
  apply Bool.eq_false_iff.mpr
  intro free
  exact absurd (isLeast.2 ⟨fromTwo, free⟩) (Nat.not_le.mpr below)

/-- The bounded search of the model finds the least number. -/
theorem isLeast_freeSuffix (names : Names) (base : String) :
    IsLeast (names.freeNumbers base) (freeSuffix base names.taken.length 2 names.taken) := by
  obtain ⟨fromTwo, free, least⟩ := freeSuffix_spec base 2 (Nat.le_refl names.taken.length)
  refine ⟨⟨fromTwo, isFree_iff.mpr free⟩, ?_⟩
  rintro number ⟨numberFromTwo, numberFree⟩
  apply Nat.le_of_not_lt
  intro below
  exact isFree_iff.mp numberFree (least number numberFromTwo below)

/-- By induction on the turns that are left. -/
theorem visits_attempts {number turns : Nat}
    (areTaken : ∀ other, number ≤ other → other < number + turns →
      names.isFree (suffixed base other) = false)
    (free : names.isFree (suffixed base (number + turns)) = true) :
    Loop.Visits (names.tryNext base) (attempt base number)
      ((List.range' number (turns + 1)).map (attempt base)) := by
  induction turns generalizing number with
  | zero => exact .last (tryNext_of_free free)
  | succ turns inductionHypothesis =>
      apply Loop.Visits.next (tryNext_of_taken (areTaken number (Nat.le_refl _) (by omega)))
      apply inductionHypothesis
      · intro other above below
        exact areTaken other (by omega) (by omega)
      · rwa [Nat.add_right_comm]

theorem visits_of_isLeast {least : Nat} (baseTaken : names.isFree base = false)
    (isLeast : IsLeast (names.freeNumbers base) least) :
    Loop.Visits (names.tryNext base) (1, base)
      ((1, base) :: (List.range' 2 (least - 1)).map (attempt base)) := by
  obtain ⟨fromTwo, free⟩ := isLeast.1
  have turns : least - 1 = (least - 2) + 1 := by omega
  have ends : 2 + (least - 2) = least := by omega
  apply Loop.Visits.next (tryNext_of_taken baseTaken)
  rw [turns]
  apply visits_attempts
  · intro other above below
    exact isFree_eq_false_of_lt isLeast above (by omega)
  · rwa [ends]

/-- A run of the search ends with a name after few turns, so that its numbers stay small. -/
structure SearchEnds (names : Names) (base name : String) (trace : List (Nat × String)) : Prop where
  visits : Loop.Visits (names.tryNext base) (1, base) trace
  ends : trace.getLast?.map Prod.snd = some name
  short : trace.length ≤ names.used.length + names.reservedWords.length + 1
  fits : names.used.length + names.reservedWords.length < UInt32.size - 2 →
    ∀ tried ∈ trace, tried.1 < UInt32.size

theorem searchEnds_of_free (free : names.isFree base = true) :
    SearchEnds names base base [(1, base)] where
  visits := .last (tryNext_of_free free)
  ends := rfl
  short := Nat.le_add_left _ _
  fits := by simp [UInt32.size]

theorem freeSuffix_le_count (baseTaken : names.isFree base = false) :
    freeSuffix base names.taken.length 2 names.taken ≤
      names.used.length + names.reservedWords.length + 1 := by
  have isTaken : base ∈ names.taken := by
    by_contra free
    exact Bool.eq_false_iff.mp baseTaken (isFree_iff.mpr free)
  have bounded := freeSuffix_le (Nat.le_refl _) isTaken names.taken_subset
  simpa using bounded

theorem searchEnds_of_isLeast {least : Nat} (baseTaken : names.isFree base = false)
    (isLeast : IsLeast (names.freeNumbers base) least)
    (bounded : least ≤ names.used.length + names.reservedWords.length + 1) :
    SearchEnds names base (suffixed base least)
      ((1, base) :: (List.range' 2 (least - 1)).map (attempt base)) := by
  have fromTwo : 2 ≤ least := isLeast.1.1
  have turns : least - 1 = (least - 2) + 1 := by omega
  have ends : 2 + (least - 2) = least := by omega
  refine ⟨visits_of_isLeast baseTaken isLeast, ?_, ?_, ?_⟩
  · rw [turns, List.range'_concat, Nat.one_mul, ends, List.map_append, List.map_singleton,
      ← List.cons_append, List.getLast?_concat]
    rfl
  · simp only [List.length_cons, List.length_map, List.length_range']
    omega
  · intro few tried listed
    simp only [List.mem_cons, List.mem_map, List.mem_range'_1] at listed
    rcases listed with rfl | ⟨number, within, rfl⟩
    · exact (by decide : 1 < UInt32.size)
    · change number < UInt32.size
      omega

/-- What an identity without a name gets for a requested text, and what becomes of the names. -/
structure Allocates (names : Names) (identity : Identity) (requested name : String)
    (after : Names) : Prop where
  plain : names.isFree (Identifier.safeName requested) = true → name = Identifier.safeName requested
  numbered : names.isFree (Identifier.safeName requested) = false →
    ∃ least, IsLeast (names.freeNumbers (Identifier.safeName requested)) least ∧
      name = suffixed (Identifier.safeName requested) least
  search : ∃ trace, SearchEnds names (Identifier.safeName requested) name trace
  given : after.lookup identity = some name
  others : ∀ other, other ≠ identity → after.lookup other = names.lookup other
  reserved : after.reserved = names.reserved

theorem searchEnds_freeName (names : Names) (requested : String) :
    ∃ trace, SearchEnds names (Identifier.safeName requested) (names.freeName requested) trace := by
  rw [freeName_eq]
  split
  next free => exact ⟨_, searchEnds_of_free free⟩
  next notFree =>
    have baseTaken := Bool.eq_false_iff.mpr notFree
    exact ⟨_, searchEnds_of_isLeast baseTaken (isLeast_freeSuffix names _)
      (freeSuffix_le_count baseTaken)⟩

theorem allocate_of_lookup_eq_none {identity : Identity} (requested : String)
    (unnamed : names.lookup identity = none) :
    names.allocate identity requested = (names.freeName requested,
      { names with assigned := names.assigned.insert identity (names.freeName requested) }) := by
  simp only [allocate, unnamed]

/-- The first name of an identity is the identifier of the requested text if that is free, else the
identifier with the least number that makes it free; the search for it ends, and no other identity
is affected. -/
theorem allocate_finds_least {identity : Identity} (requested : String)
    (unnamed : names.lookup identity = none) :
    Allocates names identity requested (names.allocate identity requested).1
      (names.allocate identity requested).2 := by
  have given := lookup_allocate names identity requested
  rw [allocate_of_lookup_eq_none requested unnamed] at given ⊢
  refine ⟨fun free => ?_, fun baseTaken => ?_, searchEnds_freeName names requested, given, ?_, rfl⟩
  · simp only [freeName_eq, free, if_true]
  · refine ⟨_, isLeast_freeSuffix names _, ?_⟩
    simp only [freeName_eq, baseTaken, Bool.false_eq_true, if_false]
  · intro other different
    simp only [lookup, OrderedMap.get?_insert, different, if_false]

/-- Names that stand in the way of the base name and of its second and fourth namesake. -/
def crowded : Names where
  reserved := ["clk", "clk4"]
  assigned := OrderedMap.ofList [((.variable, "a"), "clk2"), ((.developer, "a"), "count")]

theorem crowded_finds_third :
    crowded.lookup (.variable, "b") = none ∧
      (crowded.allocate (.variable, "b") "clk").1 = "clk3" ∧
      Allocates crowded (.variable, "b") "clk" (crowded.allocate (.variable, "b") "clk").1
        (crowded.allocate (.variable, "b") "clk").2 :=
  ⟨by rfl, by decide +kernel, allocate_finds_least "clk" (by rfl)⟩

end BlockVerilog.Names
