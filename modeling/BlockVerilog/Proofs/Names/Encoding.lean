import Mathlib.Data.List.Basic
import BlockVerilog.Proofs.Identifier

/-!
The encoding of texts, character by character.

What stands for a character starts with that character or with an underscore, so that an encoded
text starts with a digit only if the text does. Identifiers stand for themselves.
-/

namespace BlockVerilog.Identifier

variable {text : List Char}

/-! ### Characters -/

theorem encodeChar_of_isWordChar {c : Char} (word : isWordChar c = true) : encodeChar c = [c] :=
  if_pos word

theorem head?_encodeChar (c : Char) :
    (encodeChar c).head? = some (if isWordChar c then c else '_') := by
  unfold encodeChar
  split
  next => rfl
  next =>
    split
    next => rfl
    next =>
      cases bytes : String.utf8EncodeChar c with
      | nil => exact absurd bytes String.utf8EncodeChar_ne_nil
      | cons byte bytes => rfl

/-- A byte in a web address. -/
def percentByte (byte : UInt8) : List Char :=
  ['%', upperHexDigit (byte.toNat / 16), upperHexDigit (byte.toNat % 16)]

/-- A character in a web address: itself, or the bytes of its UTF-8 form. -/
def percentEncode (c : Char) : List Char :=
  if isWordChar c ∨ c ∈ addressPunctuation then [c]
  else (String.utf8EncodeChar c).flatMap percentByte

/-- An underscore in place of what no identifier may hold. -/
def underscored (c : Char) : Char :=
  if isWordChar c then c else '_'

theorem underscored_of_isWordChar {c : Char} (word : isWordChar c = true) : underscored c = c :=
  if_pos word

theorem map_underscored_percentByte (byte : UInt8) :
    (percentByte byte).map underscored = encodeByte byte := by
  have bounded : byte.toNat < 256 := byte.toNat_lt
  have high := isWordChar_upperHexDigit (n := byte.toNat / 16) (by omega)
  have low := isWordChar_upperHexDigit (n := byte.toNat % 16) (by omega)
  simp only [percentByte, List.map_cons, List.map_nil, underscored_of_isWordChar high,
    underscored_of_isWordChar low]
  rfl

/-- What stands for a character is its form in a web address, but for blanks and with underscores
in place of punctuation. -/
theorem encodeChar_eq_percentEncode (c : Char) :
    encodeChar c = (percentEncode (if c = ' ' then '_' else c)).map underscored := by
  by_cases blank : c = ' '
  · subst blank
    rfl
  rw [if_neg blank]
  by_cases word : isWordChar c = true
  · rw [encodeChar_of_isWordChar word, percentEncode, if_pos (.inl word), List.map_singleton,
      underscored_of_isWordChar word]
  by_cases mark : c ∈ addressPunctuation
  · rw [encodeChar, if_neg word, if_pos (.inr mark), percentEncode, if_pos (.inr mark),
      List.map_singleton, underscored, if_neg word]
  · rw [encodeChar, if_neg word, if_neg (not_or_intro blank mark), percentEncode,
      if_neg (not_or_intro word mark), List.map_flatMap]
    exact List.flatMap_congr fun byte _ => (map_underscored_percentByte byte).symm

/-! ### Texts -/

theorem flatMap_encodeChar_ne_nil (notEmpty : text ≠ []) : text.flatMap encodeChar ≠ [] := by
  cases text with
  | nil => exact absurd rfl notEmpty
  | cons first rest =>
      intro encoded
      have starts := head?_encodeChar first
      rw [List.flatMap_cons, List.append_eq_nil_iff] at encoded
      rw [encoded.1] at starts
      cases starts

/-- The encoding of a text starts with a digit if and only if the text does. -/
theorem any_isDigit_flatMap (text : List Char) :
    (text.flatMap encodeChar).head?.any Char.isDigit = text.head?.any Char.isDigit := by
  cases text with
  | nil => rfl
  | cons first rest =>
      rw [List.flatMap_cons, List.head?_append, head?_encodeChar, Option.some_or, List.head?_cons,
        Option.any_some, Option.any_some]
      split
      next => rfl
      next noWord =>
        have noDigit := Bool.eq_false_iff.mpr (mt isWordChar_of_isDigit noWord)
        rw [noDigit]
        rfl

theorem encode_of_ne_nil (notEmpty : text ≠ []) :
    encode text =
      (if text.head?.any Char.isDigit then digitLead else []) ++ text.flatMap encodeChar := by
  rw [← any_isDigit_flatMap text, encode]
  cases encoded : text.flatMap encodeChar with
  | nil => exact absurd encoded (flatMap_encodeChar_ne_nil notEmpty)
  | cons first rest =>
      rw [List.head?_cons, Option.any_some]
      by_cases digit : first.isDigit = true
      · simp only [if_pos digit]
      · simp only [if_neg digit, List.nil_append]

theorem not_isDigit_of_isIdentifier {first : Char} {rest : List Char}
    (identifier : isIdentifier (first :: rest) = true) : first.isDigit = false := by
  have start : first.isAlpha = true ∨ first = '_' := by
    simp only [isIdentifier, Bool.and_eq_true, Bool.or_eq_true, decide_eq_true_eq] at identifier
    exact identifier.1
  rcases start with letter | rfl
  · exact not_isDigit_of_isAlpha letter
  · rfl

theorem encode_of_isIdentifier (identifier : isIdentifier text = true) : encode text = text := by
  have kept : ∀ c ∈ text, encodeChar c = [c] := fun c member =>
    encodeChar_of_isWordChar (isWordChar_of_mem identifier member)
  rw [encode_of_ne_nil (ne_nil_of_isIdentifier identifier), List.flatMap_congr kept,
    List.flatMap_singleton']
  cases text with
  | nil => cases identifier
  | cons first rest =>
      rw [List.head?_cons, Option.any_some, not_isDigit_of_isIdentifier identifier]
      rfl

theorem safeName_eq_self_iff {name : String} :
    safeName name = name ↔ isIdentifier name.toList = true := by
  constructor
  · intro same
    rw [← same]
    exact isIdentifier_safeName name
  · intro identifier
    rw [safeName, encode_of_isIdentifier identifier, String.ofList_toList]

/-- Every text has an identifier, which for an identifier is that text itself. A text that goes on
is encoded like its beginning, with the rest behind it. -/
theorem safeName_retracts_charwise :
    (∀ name : String, isIdentifier (safeName name).toList = true) ∧
      (∀ name : String, safeName name = name ↔ isIdentifier name.toList = true) ∧
      (∀ name : String, safeName (safeName name) = safeName name) ∧
      (∀ name more : String, name ≠ "" →
        (safeName (name ++ more)).toList =
          (if name.toList.head?.any Char.isDigit then digitLead else []) ++
            name.toList.flatMap encodeChar ++ more.toList.flatMap encodeChar) ∧
      ∀ c : Char, encodeChar c = (percentEncode (if c = ' ' then '_' else c)).map underscored := by
  refine ⟨isIdentifier_safeName, fun name => safeName_eq_self_iff, fun name => ?_,
    fun name more notEmpty => ?_, encodeChar_eq_percentEncode⟩
  · exact safeName_eq_self_iff.mpr (isIdentifier_safeName name)
  · have started : name.toList ≠ [] := mt String.toList_eq_nil_iff.mp notEmpty
    have starts : (name.toList ++ more.toList).head? = name.toList.head? :=
      List.head?_append_of_ne_nil _ started
    rw [safeName, String.toList_ofList, String.toList_append,
      encode_of_ne_nil (List.append_ne_nil_of_left_ne_nil started _), starts, List.flatMap_append,
      List.append_assoc]

theorem digitFirst_charwise :
    "4é" ≠ "" ∧ safeName ("4é" ++ " a-b") = "my_4_C3_A9_a_b" ∧
      (safeName ("4é" ++ " a-b")).toList =
        digitLead ++ "4é".toList.flatMap encodeChar ++ " a-b".toList.flatMap encodeChar :=
  ⟨by decide, by decide +kernel, safeName_retracts_charwise.2.2.2.1 "4é" " a-b" (by decide)⟩

end BlockVerilog.Identifier
