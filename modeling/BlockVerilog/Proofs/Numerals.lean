/-!
Numbered names are distinct.
-/

namespace BlockVerilog.Numerals

theorem toString_injective {n m : Nat} (same : toString n = toString m) : n = m := by
  have digits : Nat.toDigits 10 n = Nat.toDigits 10 m := by
    rw [← Nat.toList_repr, ← Nat.toList_repr]
    exact congrArg String.toList same
  rw [← Nat.ofDigitChars_ten_toDigits (n := n), digits, Nat.ofDigitChars_ten_toDigits]

/-- What stands behind the last mark of a text, and in front of it. -/
theorem append_mark_inj {mark : Char} {front back other otherBack : List Char}
    (same : front ++ mark :: back = other ++ mark :: otherBack) (noMark : mark ∉ back)
    (noMarkOther : mark ∉ otherBack) : front = other ∧ back = otherBack := by
  have cut : ∀ {front back : List Char}, mark ∉ back →
      (front ++ mark :: back).reverse.takeWhile (· ≠ mark) = back.reverse := by
    intro front back noMark
    have all : ∀ c ∈ back.reverse, decide (c ≠ mark) = true := fun c listed =>
      decide_eq_true fun isMark => noMark (isMark ▸ List.mem_reverse.mp listed)
    rw [List.reverse_append, List.reverse_cons, List.append_assoc,
      List.takeWhile_append_of_pos all]
    simp
  have backs : back = otherBack := by
    rw [← List.reverse_inj, ← cut noMark, ← cut noMarkOther, same]
  subst backs
  exact ⟨List.append_cancel_right same, rfl⟩

theorem isDigit_of_mem_toString {n : Nat} {c : Char} (member : c ∈ (toString n).toList) :
    c.isDigit = true :=
  Nat.isDigit_of_mem_toDigits (by decide) (Nat.le_refl 10) (by simpa using member)

/-- A text and the number behind it can be told apart, whatever the text holds. -/
theorem numbered_injective {front other : String} {n m : Nat}
    (same : front ++ "#" ++ toString n = other ++ "#" ++ toString m) : front = other ∧ n = m := by
  have behind : ∀ k : Nat, '#' ∉ (toString k).toList := fun k listed =>
    absurd (isDigit_of_mem_toString listed) (by decide)
  have spelled : front.toList ++ '#' :: (toString n).toList =
      other.toList ++ '#' :: (toString m).toList := by
    simpa [String.toList_append] using congrArg String.toList same
  obtain ⟨fronts, numbers⟩ := append_mark_inj spelled (behind n) (behind m)
  exact ⟨String.toList_inj.mp fronts, toString_injective (String.toList_inj.mp numbers)⟩

end BlockVerilog.Numerals
