import Mathlib.Data.List.Forall2

/-!
Lists whose members are related one by one.
-/

namespace BlockVerilog

variable {α β : Type} {related : α → β → Prop}

theorem exists_forall₂_iff {first : List α} :
    (∃ second, List.Forall₂ related first second) ↔ ∀ a ∈ first, ∃ b, related a b := by
  induction first with
  | nil => simp
  | cons a first inductionHypothesis =>
      rw [List.forall_mem_cons, ← inductionHypothesis]
      constructor
      · rintro ⟨_, _ | ⟨here, later⟩⟩
        exact ⟨⟨_, here⟩, _, later⟩
      · rintro ⟨⟨b, here⟩, second, later⟩
        exact ⟨b :: second, .cons here later⟩

theorem forall₂_iff_eq_map {f : α → β} {first : List α}
    (each : ∀ a ∈ first, ∀ b, related a b ↔ b = f a) {second : List β} :
    List.Forall₂ related first second ↔ second = first.map f := by
  induction first generalizing second with
  | nil => exact List.forall₂_nil_left_iff
  | cons a first inductionHypothesis =>
      obtain ⟨here, later⟩ := List.forall_mem_cons.mp each
      rw [List.forall₂_cons_left_iff, List.map_cons]
      constructor
      · rintro ⟨b, rest, relatedHere, relatedLater, rfl⟩
        rw [(here b).mp relatedHere, (inductionHypothesis later).mp relatedLater]
      · rintro rfl
        exact ⟨_, _, (here _).mpr rfl, (inductionHypothesis later).mpr rfl, rfl⟩

theorem exists_split_of_forall₂ {before after : List α} {a : α} {others : List β}
    (lists : List.Forall₂ related (before ++ a :: after) others) :
    ∃ otherBefore b otherAfter, others = otherBefore ++ b :: otherAfter ∧ related a b ∧
      List.Forall₂ related after otherAfter := by
  induction before generalizing others with
  | nil =>
      cases lists with
      | cons here later => exact ⟨[], _, _, rfl, here, later⟩
  | cons first before inductionHypothesis =>
      cases lists with
      | cons here later =>
          obtain ⟨otherBefore, b, otherAfter, rfl, rest⟩ := inductionHypothesis later
          exact ⟨_ :: otherBefore, b, otherAfter, rfl, rest⟩

theorem exists_related_of_mem {first : List α} {second : List β}
    (lists : List.Forall₂ related first second) {a : α} (listed : a ∈ first) :
    ∃ b ∈ second, related a b := by
  obtain ⟨before, after, rfl⟩ := List.append_of_mem listed
  obtain ⟨otherBefore, b, otherAfter, rfl, holds, _⟩ := exists_split_of_forall₂ lists
  exact ⟨b, by simp, holds⟩

theorem flatMap_eq_of_forall₂ {γ : Type} {first : α → List γ} {second : β → List γ}
    {ids : List α} {others : List β} (lists : List.Forall₂ related ids others)
    (each : ∀ a ∈ ids, ∀ b, related a b → first a = second b) :
    ids.flatMap first = others.flatMap second := by
  induction lists with
  | nil => rfl
  | cons here later inductionHypothesis =>
      rw [List.forall_mem_cons] at each
      rw [List.flatMap_cons, List.flatMap_cons, each.1 _ here, inductionHypothesis each.2]

end BlockVerilog
