import BlockVerilog.Proofs.Text.FullLines

/-!
White space at the end of a text, and the last line of a text.

A text is broken at its end if the white space there spans a line break. That is so exactly if there
is a line break and nothing can be seen behind the last one.
-/

namespace BlockVerilog.Text

/-- Nothing of a text can be seen. -/
def AllBlank (text : List Char) : Prop := ∀ c ∈ text, isBlank c = true

instance (text : List Char) : Decidable (AllBlank text) :=
  inferInstanceAs (Decidable (∀ c ∈ text, isBlank c = true))

/-- The white space that ends a text spans a line break. -/
def EndsBroken (text : List Char) : Prop := '\n' ∈ takeWhileEnd isBlank text

instance (text : List Char) : Decidable (EndsBroken text) :=
  inferInstanceAs (Decidable ('\n' ∈ takeWhileEnd isBlank text))

theorem allBlank_append {first second : List Char} :
    AllBlank (first ++ second) ↔ AllBlank first ∧ AllBlank second := List.forall_mem_append

theorem isBlank_newline : isBlank '\n' = true := by decide

theorem not_allBlank_iff {text : List Char} : ¬ AllBlank text ↔ ∃ c ∈ text, isBlank c = false := by
  simp [AllBlank]

theorem not_allBlank_of_closes {text : List Char} (closed : closes text = true) :
    ¬ AllBlank text := by
  obtain ⟨body, c, rfl, visible⟩ := exists_concat_of_closes closed
  exact not_allBlank_iff.mpr ⟨c, by simp, visible⟩

theorem takeWhileEnd_of_all {p : Char → Bool} {text : List Char} (all : ∀ c ∈ text, p c = true) :
    takeWhileEnd p text = text := by
  rw [takeWhileEnd, List.takeWhile_eq_self_iff.mpr, List.reverse_reverse]
  exact fun c listed => all c (List.mem_reverse.mp listed)

/-- What ends a text reaches back over a last part that belongs to it as a whole. -/
theorem takeWhileEnd_append_of_all {p : Char → Bool} {second : List Char}
    (all : ∀ c ∈ second, p c = true) (first : List Char) :
    takeWhileEnd p (first ++ second) = takeWhileEnd p first ++ second := by
  have reversed : ∀ c ∈ second.reverse, p c = true := fun c listed =>
    all c (List.mem_reverse.mp listed)
  rw [takeWhileEnd, List.reverse_append, List.takeWhile_append_of_pos reversed,
    List.reverse_append, List.reverse_reverse, takeWhileEnd]

/-- It reaches back to the last character that does not belong to it. -/
theorem takeWhileEnd_append_cons {p : Char → Bool} {c : Char} (stops : p c = false)
    (first second : List Char) :
    takeWhileEnd p (first ++ c :: second) = takeWhileEnd p second := by
  rw [takeWhileEnd, takeWhileEnd, List.reverse_append, List.reverse_cons, List.append_assoc,
    List.takeWhile_append]
  split
  next whole =>
    rw [(List.takeWhile_prefix p).eq_of_length whole, List.singleton_append,
      List.takeWhile_cons_of_neg (by simp [stops]), List.append_nil]
  next => rfl

theorem takeWhileEnd_suffix (p : Char → Bool) (text : List Char) : takeWhileEnd p text <:+ text :=
  ⟨_, dropWhileEnd_append_takeWhileEnd p text⟩

/-- The white space behind a visible end is all that there is at the end. -/
theorem takeWhileEnd_gap {body gap : List Char} (closed : closes body = true)
    (blank : AllBlank gap) : takeWhileEnd isBlank (body ++ gap) = gap := by
  obtain ⟨front, c, rfl, visible⟩ := exists_concat_of_closes closed
  rw [takeWhileEnd_append_of_all blank, takeWhileEnd_append_cons visible]
  rfl

/-- The last line of a text, behind all the others. -/
theorem exists_lastLine (text : List Char) :
    '\n' ∉ text ∨ ∃ front last, text = front ++ '\n' :: last ∧ '\n' ∉ last := by
  induction text with
  | nil => exact .inl List.not_mem_nil
  | cons c text inductionHypothesis =>
      rcases inductionHypothesis with one | ⟨front, last, rfl, clean⟩
      · by_cases newline : c = '\n'
        · exact .inr ⟨[], text, by rw [newline, List.nil_append], one⟩
        · exact .inl (List.not_mem_cons_of_ne_of_not_mem (Ne.symm newline) one)
      · exact .inr ⟨c :: front, last, rfl, clean⟩

/-- Behind whole lines nothing is left. -/
theorem lines_of_endsLine {text : List Char} (ends : EndsLine text) :
    lines text = fullLines text ++ [[]] := by
  rcases ends with rfl | ⟨body, rfl⟩
  · rfl
  · rw [fullLines_newline, lines_append_newline]
    rfl

theorem not_endsBroken_of_not_mem {text : List Char} (one : '\n' ∉ text) : ¬ EndsBroken text :=
  fun broken => one ((takeWhileEnd_suffix isBlank text).subset broken)

theorem endsBroken_append_newline {last : List Char} (clean : '\n' ∉ last) (front : List Char) :
    EndsBroken (front ++ '\n' :: last) ↔ AllBlank last := by
  unfold EndsBroken
  constructor
  · intro broken
    by_contra shown
    obtain ⟨c, listed, visible⟩ := not_allBlank_iff.mp shown
    obtain ⟨before, after, rfl⟩ := List.append_of_mem listed
    -- the white space at the end does not reach past what is seen in the last line
    rw [← List.cons_append, ← List.append_assoc, takeWhileEnd_append_cons visible] at broken
    have inside : '\n' ∈ after := (takeWhileEnd_suffix isBlank after).subset broken
    exact clean (List.mem_append_right before (List.mem_cons_of_mem c inside))
  · intro blank
    have all : AllBlank ('\n' :: last) := List.forall_mem_cons.mpr ⟨isBlank_newline, blank⟩
    rw [takeWhileEnd_append_of_all all]
    exact List.mem_append_right _ List.mem_cons_self

end BlockVerilog.Text
