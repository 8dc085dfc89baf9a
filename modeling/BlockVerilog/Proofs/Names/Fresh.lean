import Mathlib.Data.List.Perm.Subperm
import BlockVerilog.Names
import BlockVerilog.Proofs.Identifier
import BlockVerilog.Proofs.OrderedMap

/-!
New names are free identifiers.

Numbered names of one base are distinct, so that a search among more of them than there are taken
names finds a free one.
-/

namespace BlockVerilog.Names

theorem suffixed_injective {base : String} {n m : Nat} (same : suffixed base n = suffixed base m) :
    n = m := by
  refine Numerals.toString_injective (String.toList_inj.mp ?_)
  have characters := congrArg String.toList same
  simpa [suffixed] using characters

theorem freeSuffix_succ (base : String) (tries n : Nat) (taken : List String) :
    freeSuffix base (tries + 1) n taken =
      if suffixed base n ∈ taken then
        freeSuffix base tries (n + 1) (taken.erase (suffixed base n))
      else n := rfl

theorem freeName_eq (names : Names) (requested : String) :
    names.freeName requested =
      if names.isFree (Identifier.safeName requested) then Identifier.safeName requested
      else
        suffixed (Identifier.safeName requested)
          (freeSuffix (Identifier.safeName requested) names.taken.length 2 names.taken) := rfl

/-- The search ends at the least number that makes the base name free. -/
theorem freeSuffix_spec (base : String) (n : Nat) {tries : Nat} {taken : List String}
    (enough : taken.length ≤ tries) :
    n ≤ freeSuffix base tries n taken ∧
      suffixed base (freeSuffix base tries n taken) ∉ taken ∧
      ∀ m, n ≤ m → m < freeSuffix base tries n taken → suffixed base m ∈ taken := by
  induction tries generalizing n taken with
  | zero =>
      obtain rfl := List.eq_nil_of_length_eq_zero (Nat.le_zero.mp enough)
      refine ⟨Nat.le_refl n, List.not_mem_nil, fun m above below => ?_⟩
      exact absurd below (Nat.not_lt.mpr above)
  | succ tries inductionHypothesis =>
      rw [freeSuffix_succ]
      split
      next isTaken =>
        have shorter : (taken.erase (suffixed base n)).length ≤ tries := by
          rw [List.length_erase_of_mem isTaken]
          omega
        obtain ⟨above, free, least⟩ := inductionHypothesis (n + 1) shorter
        refine ⟨by omega, fun still => free ?_, fun m from_n below => ?_⟩
        · refine (List.mem_erase_of_ne fun same => ?_).mpr still
          have := suffixed_injective same
          omega
        · rcases Nat.eq_or_lt_of_le from_n with rfl | later
          · exact isTaken
          · exact List.mem_of_mem_erase (least m later below)
      next isFree =>
        exact ⟨Nat.le_refl _, isFree, fun m above below => absurd below (Nat.not_lt.mpr above)⟩

theorem suffixed_ne_base (base : String) (n : Nat) : suffixed base n ≠ base := by
  intro same
  have characters := congrArg String.toList same
  simp [suffixed] at characters

/-- The base name and each number that is tried are taken names of their own. -/
theorem freeSuffix_le {base : String} {tries : Nat} {taken others : List String}
    (enough : taken.length ≤ tries) (baseTaken : base ∈ taken) (within : taken ⊆ others) :
    freeSuffix base tries 2 taken ≤ others.length + 1 := by
  obtain ⟨above, _, least⟩ := freeSuffix_spec base 2 enough
  let numbers := List.range' 2 (freeSuffix base tries 2 taken - 2)
  have distinct : (base :: numbers.map (suffixed base)).Nodup := by
    rw [List.nodup_cons]
    constructor
    · intro listed
      obtain ⟨n, _, same⟩ := List.mem_map.mp listed
      exact suffixed_ne_base base n same
    · have counted : numbers.Nodup := List.nodup_range'
      exact counted.map fun _ _ => suffixed_injective
  have listed : base :: numbers.map (suffixed base) ⊆ others := by
    refine List.cons_subset.mpr ⟨within baseTaken, fun name listed => ?_⟩
    obtain ⟨n, tried, rfl⟩ := List.mem_map.mp listed
    rw [List.mem_range'_1] at tried
    exact within (least n tried.1 (by omega))
  have bounded := (List.subperm_of_subset distinct listed).length_le
  simp only [numbers, List.length_cons, List.length_map, List.length_range'] at bounded
  omega

theorem isFree_iff {names : Names} {name : String} :
    names.isFree name = true ↔ name ∉ names.taken := by
  simp [isFree, isUsed, isReserved, isKeyword, taken, and_assoc, and_comm]

theorem freeName_not_mem_taken (names : Names) (requested : String) :
    names.freeName requested ∉ names.taken := by
  rw [freeName_eq]
  split
  next free => exact isFree_iff.mp free
  next => exact (freeSuffix_spec _ 2 (Nat.le_refl _)).2.1

theorem isIdentifier_freeName (names : Names) (requested : String) :
    Identifier.isIdentifier (names.freeName requested).toList = true := by
  rw [freeName_eq]
  split
  next => exact Identifier.isIdentifier_safeName requested
  next =>
    rw [suffixed, String.toList_append]
    refine Identifier.isIdentifier_append (Identifier.isIdentifier_safeName requested) ?_
    rw [List.all_eq_true]
    intro c digit
    exact Identifier.isWordChar_of_isDigit
      (Nat.isDigit_of_mem_toDigits (by decide) (Nat.le_refl 10) (by simpa using digit))

/-- A name that may be given: an identifier, and no keyword. -/
structure IsLegal (name : String) : Prop where
  identifier : Identifier.isIdentifier name.toList = true
  noKeyword : name ∉ keywords

theorem isLegal_freeName (names : Names) (requested : String) :
    IsLegal (names.freeName requested) := by
  refine ⟨isIdentifier_freeName names requested, fun keyword => ?_⟩
  exact freeName_not_mem_taken names requested (List.mem_append_right _ keyword)

/-- Every name that was given is legal. -/
def AllLegal (names : Names) : Prop :=
  ∀ identity name, names.lookup identity = some name → IsLegal name

theorem allLegal_withReserved (words : List String) : (withReserved words).AllLegal := by
  intro identity name given
  cases given

theorem lookup_allocate (names : Names) (identity : Identity) (requested : String) :
    (names.allocate identity requested).2.lookup identity =
      some (names.allocate identity requested).1 := by
  unfold allocate
  cases given : names.lookup identity with
  | some name => exact given
  | none => simp [lookup, OrderedMap.get?_insert]

theorem lookup_allocate_of_lookup {names : Names} {identity other : Identity}
    {requested name : String} (before : names.lookup other = some name) :
    (names.allocate identity requested).2.lookup other = some name := by
  unfold allocate
  cases given : names.lookup identity with
  | some _ => exact before
  | none =>
      have different : other ≠ identity := fun same => by simp [← same, before] at given
      simpa [lookup, OrderedMap.get?_insert, different] using before

theorem AllLegal.allocate {names : Names} (legal : names.AllLegal) (identity : Identity)
    (requested : String) : (names.allocate identity requested).2.AllLegal := by
  unfold Names.allocate
  cases given : names.lookup identity with
  | some _ => exact legal
  | none =>
      intro other name found
      rw [lookup, OrderedMap.get?_insert] at found
      split at found
      next =>
        obtain rfl := Option.some.inj found
        exact isLegal_freeName names requested
      next => exact legal other name found

/-- No two identities have the same name. -/
def AllDistinct (names : Names) : Prop :=
  ∀ first second name, names.lookup first = some name → names.lookup second = some name →
    first = second

theorem allDistinct_withReserved (words : List String) : (withReserved words).AllDistinct := by
  intro first second name given
  cases given

theorem lookup_ne_freeName {names : Names} {identity : Identity} {requested : String} :
    names.lookup identity ≠ some (names.freeName requested) := by
  intro given
  apply freeName_not_mem_taken names requested
  have held := OrderedMap.mem_values_iff.mpr ⟨identity, given⟩
  exact List.mem_append_left _ (List.mem_append_left _ held)

theorem AllDistinct.allocate {names : Names} (distinct : names.AllDistinct) (identity : Identity)
    (requested : String) : (names.allocate identity requested).2.AllDistinct := by
  unfold Names.allocate
  cases given : names.lookup identity with
  | some _ => exact distinct
  | none =>
      intro first second name firstGiven secondGiven
      rw [lookup, OrderedMap.get?_insert] at firstGiven secondGiven
      split at firstGiven <;> split at secondGiven
      next firstIs secondIs => exact firstIs.trans secondIs.symm
      next =>
        obtain rfl := Option.some.inj firstGiven
        exact absurd secondGiven lookup_ne_freeName
      next =>
        obtain rfl := Option.some.inj secondGiven
        exact absurd firstGiven lookup_ne_freeName
      next => exact distinct first second name firstGiven secondGiven

end BlockVerilog.Names
