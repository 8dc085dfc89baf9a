import BlockVerilog.Identifier
import BlockVerilog.Proofs.Numerals

/-!
Encoded texts are identifiers.
-/

namespace BlockVerilog.Identifier

theorem isWordChar_of_isDigit {c : Char} (digit : c.isDigit = true) : isWordChar c = true := by
  simp [isWordChar, Char.isAlphanum, digit]

theorem isAlpha_iff_toNat {c : Char} :
    c.isAlpha = true ↔ (65 ≤ c.toNat ∧ c.toNat ≤ 90) ∨ (97 ≤ c.toNat ∧ c.toNat ≤ 122) := by
  delta Char.isAlpha Char.isUpper Char.isLower
  simp only [Bool.or_eq_true, Bool.and_eq_true, decide_eq_true_eq, ge_iff_le,
    UInt32.le_iff_toNat_le]
  rfl

theorem not_isDigit_of_isAlpha {c : Char} (letter : c.isAlpha = true) : c.isDigit = false := by
  apply Bool.eq_false_iff.mpr
  intro digit
  rw [isAlpha_iff_toNat] at letter
  obtain ⟨_, below⟩ := Char.isDigit_iff_toNat.mp digit
  change c.toNat ≤ 57 at below
  omega

theorem isWordChar_upperHexDigit {n : Nat} (below : n < 16) :
    isWordChar (upperHexDigit n) = true := by
  revert n
  decide

theorem all_isWordChar_encodeByte (byte : UInt8) : (encodeByte byte).all isWordChar = true := by
  have bounded : byte.toNat < 256 := byte.toNat_lt
  have high := isWordChar_upperHexDigit (n := byte.toNat / 16) (by omega)
  have low := isWordChar_upperHexDigit (n := byte.toNat % 16) (by omega)
  simp only [encodeByte, List.all_cons, List.all_nil, high, low]
  rfl

theorem all_isWordChar_encodeChar (c : Char) : (encodeChar c).all isWordChar = true := by
  unfold encodeChar
  split
  next word => simp [word]
  next =>
    split
    next => rfl
    next =>
      rw [List.all_flatMap, List.all_eq_true]
      exact fun byte _ => all_isWordChar_encodeByte byte

theorem all_isWordChar_flatMap (text : List Char) :
    (text.flatMap encodeChar).all isWordChar = true := by
  rw [List.all_flatMap, List.all_eq_true]
  exact fun c _ => all_isWordChar_encodeChar c

theorem isIdentifier_cons {first : Char} {rest : List Char} (word : isWordChar first = true)
    (noDigit : first.isDigit = false) (others : rest.all isWordChar = true) :
    isIdentifier (first :: rest) = true := by
  simp only [isWordChar, Char.isAlphanum, noDigit, Bool.or_false] at word
  simp only [isIdentifier, others, Bool.and_true]
  exact word

theorem isIdentifier_encode (text : List Char) : isIdentifier (encode text) = true := by
  have words := all_isWordChar_flatMap text
  unfold encode
  split
  next => rfl
  next first rest encoded =>
    rw [encoded] at words
    split
    next =>
      have behind : (['y', '_'] ++ first :: rest).all isWordChar = true := by
        rw [List.all_append, words]
        rfl
      exact isIdentifier_cons rfl rfl behind
    next noDigit =>
      rw [List.all_cons, Bool.and_eq_true] at words
      exact isIdentifier_cons words.1 (Bool.eq_false_iff.mpr noDigit) words.2

theorem isIdentifier_safeName (text : String) : isIdentifier (safeName text).toList = true := by
  rw [safeName, String.toList_ofList]
  exact isIdentifier_encode text.toList

theorem isIdentifier_append {name more : List Char} (identifier : isIdentifier name = true)
    (words : more.all isWordChar = true) : isIdentifier (name ++ more) = true := by
  cases name with
  | nil => cases identifier
  | cons first rest =>
      simp only [isIdentifier, List.cons_append, List.all_append, Bool.and_eq_true] at identifier ⊢
      exact ⟨identifier.1, identifier.2, words⟩

theorem ne_nil_of_isIdentifier {name : List Char} (identifier : isIdentifier name = true) :
    name ≠ [] := by
  rintro rfl
  cases identifier

theorem isWordChar_of_mem {name : List Char} (identifier : isIdentifier name = true) {c : Char}
    (member : c ∈ name) : isWordChar c = true := by
  cases name with
  | nil => cases member
  | cons first rest =>
      simp only [isIdentifier, Bool.and_eq_true, Bool.or_eq_true, decide_eq_true_eq,
        List.all_eq_true] at identifier
      rcases List.mem_cons.mp member with rfl | later
      · rcases identifier.1 with letter | underscore
        · simp [isWordChar, Char.isAlphanum, letter]
        · simp [isWordChar, underscore]
      · exact identifier.2 c later

end BlockVerilog.Identifier
