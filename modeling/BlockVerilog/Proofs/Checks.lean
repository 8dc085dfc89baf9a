/-!
When checks that run one after the other succeed, and what they fail with.
-/

namespace BlockVerilog.Checks

variable {ε α : Type}

theorem andThen_eq_ok_iff {first : Except ε Unit} {second : Unit → Except ε Unit} :
    (first >>= second) = .ok () ↔ first = .ok () ∧ second () = .ok () := by
  cases first with
  | error e => simp [bind, Except.bind]
  | ok => simp [bind, Except.bind]

theorem bind_eq_ok_iff {β : Type} {first : Except ε α} {second : α → Except ε β} {b : β} :
    (first >>= second) = .ok b ↔ ∃ a, first = .ok a ∧ second a = .ok b := by
  cases first with
  | error e => simp [bind, Except.bind]
  | ok a => simp [bind, Except.bind]

theorem throwIf_eq_ok_iff {p : Prop} [Decidable p] {e : ε} :
    (if p then throw e else pure () : Except ε Unit) = .ok () ↔ ¬ p := by
  by_cases holds : p
  · simp [holds, throw, throwThe, MonadExceptOf.throw]
  · simp [holds, pure, Except.pure]

theorem refuse_eq_ok_iff {γ : Type} {p : Prop} [Decidable p] {e : ε}
    {unreached : γ → Except ε α} {rest : Except ε α} {a : α} :
    (if p then throw e >>= unreached else rest) = .ok a ↔ ¬ p ∧ rest = .ok a := by
  by_cases holds : p
  · simp [holds, throw, throwThe, MonadExceptOf.throw, bind, Except.bind]
  · simp [holds]

theorem bind_eq_error_iff {β : Type} {first : Except ε α} {second : α → Except ε β} {e : ε} :
    (first >>= second) = .error e ↔
      first = .error e ∨ ∃ a, first = .ok a ∧ second a = .error e := by
  cases first with
  | error raised => simp [bind, Except.bind]
  | ok a => simp [bind, Except.bind]

theorem throwIf_eq_error_iff {p : Prop} [Decidable p] {e raised : ε} :
    (if p then throw e else pure () : Except ε Unit) = .error raised ↔ p ∧ e = raised := by
  by_cases holds : p
  · simp [holds, throw, throwThe, MonadExceptOf.throw]
  · simp [holds, pure, Except.pure]

theorem refuse_eq_error_iff {γ : Type} {p : Prop} [Decidable p] {e raised : ε}
    {unreached : γ → Except ε α} {rest : Except ε α} :
    (if p then throw e >>= unreached else rest) = .error raised ↔
      p ∧ e = raised ∨ ¬ p ∧ rest = .error raised := by
  by_cases holds : p
  · simp [holds, throw, throwThe, MonadExceptOf.throw, bind, Except.bind]
  · simp [holds]

theorem forM_eq_ok_iff {check : α → Except ε Unit} {elements : List α} :
    elements.forM check = .ok () ↔ ∀ a ∈ elements, check a = .ok () := by
  induction elements with
  | nil => simp [pure, Except.pure]
  | cons a rest inductionHypothesis =>
      simp only [List.forM_eq_forM] at inductionHypothesis
      simp only [List.forM_eq_forM, List.forM_cons, andThen_eq_ok_iff, inductionHypothesis,
        List.forall_mem_cons]

/-- A check fails with such errors only. -/
def FailsWith (post : ε → Prop) (check : Except ε α) : Prop :=
  ∀ e, check = .error e → post e

variable {post : ε → Prop}

theorem failsWith_ok (a : α) : FailsWith post (.ok a) := nofun

theorem failsWith_error {e : ε} (holds : post e) : FailsWith post (.error e : Except ε α) := by
  intro raised same
  exact Except.error.inj same ▸ holds

theorem failsWith_bind {β : Type} {first : Except ε α} {second : α → Except ε β}
    (before : FailsWith post first) (after : ∀ a, first = .ok a → FailsWith post (second a)) :
    FailsWith post (first >>= second) := by
  intro e failed
  cases ran : first with
  | error raised =>
      rw [ran] at failed
      exact Except.error.inj failed ▸ before raised ran
  | ok a =>
      rw [ran] at failed
      exact after a ran e failed

theorem failsWith_throwIf {p : Prop} [Decidable p] {e : ε} (holds : post e) :
    FailsWith post (if p then throw e else pure () : Except ε Unit) := by
  split
  · exact failsWith_error holds
  · exact failsWith_ok ()

theorem failsWith_forM {check : α → Except ε Unit} {elements : List α}
    (each : ∀ a ∈ elements, FailsWith post (check a)) : FailsWith post (elements.forM check) := by
  induction elements with
  | nil => exact failsWith_ok ()
  | cons a rest inductionHypothesis =>
      apply failsWith_bind (each a List.mem_cons_self)
      intro _ _
      exact inductionHypothesis fun b listed => each b (List.mem_cons_of_mem a listed)

/-! ### The first offence -/

section

variable {κ : Type} {offends : κ → ε → Prop} {places more : List κ} {e : ε}

/-- Of some places the first where something offends, with what offends there. -/
def FirstOffence (offends : κ → ε → Prop) (places : List κ) (e : ε) : Prop :=
  ∃ before found after, places = before ++ found :: after ∧
    (∀ earlier ∈ before, ∀ other, ¬ offends earlier other) ∧ offends found e

/-- A check goes through places in order. It succeeds if nothing offends, and else fails with the
first offence. -/
def GoesThrough (offends : κ → ε → Prop) (places : List κ) : Except ε Unit → Prop
  | .ok () => ∀ place ∈ places, ∀ e, ¬ offends place e
  | .error e => FirstOffence offends places e

theorem FirstOffence.append_right (first : FirstOffence offends places e) (more : List κ) :
    FirstOffence offends (places ++ more) e := by
  obtain ⟨before, found, after, rfl, rest⟩ := first
  exact ⟨before, found, after ++ more, by simp, rest⟩

theorem FirstOffence.append_left (first : FirstOffence offends more e)
    (fine : ∀ place ∈ places, ∀ other, ¬ offends place other) :
    FirstOffence offends (places ++ more) e := by
  obtain ⟨before, found, after, rfl, fineBefore, offending⟩ := first
  refine ⟨places ++ before, found, after, by simp, ?_, offending⟩
  exact List.forall_mem_append.mpr ⟨fine, fineBefore⟩

/-- There is one first offence at most, if a place offends in one way only. -/
theorem FirstOffence.unique
    (functional : ∀ place first second, offends place first → offends place second →
      first = second) {other : ε} (first : FirstOffence offends places e)
    (second : FirstOffence offends places other) : e = other := by
  obtain ⟨before, found, after, rfl, fine, offending⟩ := first
  obtain ⟨otherBefore, otherFound, otherAfter, same, otherFine, otherOffending⟩ := second
  rcases List.append_eq_append_iff.mp same with ⟨between, rfl, split⟩ | ⟨between, rfl, split⟩
  · cases between with
    | nil =>
        obtain ⟨rfl, _⟩ := List.cons.inj split
        exact functional found e other offending otherOffending
    | cons place between =>
        obtain ⟨rfl, _⟩ := List.cons.inj split
        exact absurd offending (otherFine found (by simp) e)
  · cases between with
    | nil =>
        obtain ⟨rfl, _⟩ := List.cons.inj split
        exact functional otherFound e other offending otherOffending
    | cons place between =>
        obtain ⟨rfl, _⟩ := List.cons.inj split
        exact absurd otherOffending (fine otherFound (by simp) other)

theorem goesThrough_none : GoesThrough offends [] (.ok ()) := List.forall_mem_nil _

theorem goesThrough_bind {first : Except ε Unit} {second : Unit → Except ε Unit}
    (before : GoesThrough offends places first)
    (behind : first = .ok () → GoesThrough offends more (second ())) :
    GoesThrough offends (places ++ more) (first >>= second) := by
  cases ran : first with
  | error e =>
      rw [ran] at before
      exact FirstOffence.append_right before more
  | ok =>
      rw [ran] at before
      have later := behind ran
      change GoesThrough offends (places ++ more) (second ())
      cases ended : second () with
      | error e =>
          rw [ended] at later
          exact FirstOffence.append_left later before
      | ok =>
          rw [ended] at later
          exact List.forall_mem_append.mpr ⟨before, later⟩

theorem goesThrough_forM {check : α → Except ε Unit} {visits : α → List κ} {elements : List α}
    (each : ∀ a ∈ elements, GoesThrough offends (visits a) (check a)) :
    GoesThrough offends (elements.flatMap visits) (elements.forM check) := by
  induction elements with
  | nil => exact goesThrough_none
  | cons a rest inductionHypothesis =>
      rw [List.flatMap_cons]
      apply goesThrough_bind (each a List.mem_cons_self)
      intro _
      exact inductionHypothesis fun b listed => each b (List.mem_cons_of_mem a listed)

/-- A check that looks at a single place. -/
theorem goesThrough_one {place : κ} {check : Except ε Unit}
    (accepts : check = .ok () → ∀ e, ¬ offends place e)
    (refuses : ∀ e, check = .error e → offends place e) : GoesThrough offends [place] check := by
  cases ran : check with
  | error e => exact ⟨[], place, [], rfl, List.forall_mem_nil _, refuses e ran⟩
  | ok => exact List.forall_mem_singleton.mpr (accepts ran)

end

end BlockVerilog.Checks
