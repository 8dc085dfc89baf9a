import BlockVerilog.Proofs.Json.Spelling
import Mathlib.Data.List.TakeWhile

/-!
Texts are cut to no other tokens than those that they spell.

What the scanners take for a character, a string or a word spells it. A number or a fault is never
taken for a token of another kind.
-/

namespace BlockVerilog.Json

section

variable {n : Nat} {c : Char} {text rest : List Char}

theorem toNat_lt_of_hexDigit? (read : hexDigit? c = some n) : c.toNat < 128 := by
  unfold hexDigit? at read
  simp only [Char.isDigit, Char.le_def, UInt32.le_iff_toNat_le, ge_iff_le, Bool.and_eq_true,
    decide_eq_true_eq] at read
  split at read
  next digit => exact Nat.lt_of_le_of_lt digit.2 (by decide)
  next =>
    split at read
    next small => exact Nat.lt_of_le_of_lt small.2 (by decide)
    next =>
      split at read
      next capital => exact Nat.lt_of_le_of_lt capital.2 (by decide)
      next => cases read

theorem spellsDigit_of_hexDigit? (read : hexDigit? c = some n) : SpellsDigit n c := by
  have both : ∀ k < 128, ∀ n ∈ hexDigit? (Char.ofNat k), n < 16 ∧
      (Char.ofNat k = Nat.digitChar n ∨ Char.ofNat k = (Nat.digitChar n).toUpper) := by decide
  have spelled := both c.toNat (toNat_lt_of_hexDigit? read) n
  rw [Char.ofNat_toNat] at spelled
  obtain ⟨below, rfl | rfl⟩ := spelled read
  · exact .small below
  · exact .capital below

theorem SpellsDigit.lt (spelled : SpellsDigit n c) : n < 16 := by
  cases spelled <;> assumption

theorem spellsNumber_of_scanHex (read : scanHex text = .ok (n, rest)) :
    n < 0x10000 ∧ ∃ digits, text = digits ++ rest ∧ SpellsNumber n digits := by
  unfold scanHex at read
  split at read
  next a b c d more =>
    split at read
    next first second third fourth isFirst isSecond isThird isFourth =>
      obtain ⟨rfl, rfl⟩ := Prod.mk.inj (Except.ok.inj read)
      have firstSpelled := spellsDigit_of_hexDigit? isFirst
      have secondSpelled := spellsDigit_of_hexDigit? isSecond
      have thirdSpelled := spellsDigit_of_hexDigit? isThird
      have fourthSpelled := spellsDigit_of_hexDigit? isFourth
      have := firstSpelled.lt
      have := secondSpelled.lt
      have := thirdSpelled.lt
      have := fourthSpelled.lt
      refine ⟨by omega, [a, b, c, d], rfl, .digits ?_ ?_ ?_ ?_⟩
      · rwa [show (((first * 16 + second) * 16 + third) * 16 + fourth) / 0x1000 = first by omega]
      · rwa [show (((first * 16 + second) * 16 + third) * 16 + fourth) / 0x100 % 16 = second by
          omega]
      · rwa [show (((first * 16 + second) * 16 + third) * 16 + fourth) / 16 % 16 = third by omega]
      · rwa [show (((first * 16 + second) * 16 + third) * 16 + fourth) % 16 = fourth by omega]
    next => cases read
  next => cases read

theorem toNat_ofNat_of_lt (valid : n < 0xD800 ∨ 0xDFFF < n ∧ n < 0x110000) :
    (Char.ofNat n).toNat = n := by
  have isValid : n.isValidChar := valid
  rw [Char.ofNat, dif_pos isValid]
  rfl

theorem spellsChar_of_scanLowSurrogate {high : Nat} {digits : List Char}
    (isHigh : isHighSurrogate high = true) (spelled : SpellsNumber high digits)
    (read : scanLowSurrogate high text = .ok (c, rest)) :
    ∃ word, '\\' :: 'u' :: digits ++ text = word ++ rest ∧ SpellsChar c word := by
  unfold scanLowSurrogate at read
  split at read
  next => cases read
  next => cases read
  next second =>
    split at read
    next => cases read
    next low more found =>
      split at read
      next isLow =>
        obtain ⟨rfl, rfl⟩ := Prod.mk.inj (Except.ok.inj read)
        obtain ⟨_, lowDigits, rfl, lowSpelled⟩ := spellsNumber_of_scanHex found
        simp only [isHighSurrogate, isLowSurrogate, Bool.and_eq_true, decide_eq_true_eq]
          at isHigh isLow
        refine ⟨'\\' :: 'u' :: digits ++ '\\' :: 'u' :: lowDigits, by simp, ?_⟩
        -- Both surrogates can be read off the number of the character again.
        have number : (joinSurrogates high low).toNat =
            0x10000 + ((high - 0xD800) * 0x400 + (low - 0xDC00)) := by
          rw [joinSurrogates, toNat_ofNat_of_lt (by omega), Nat.add_assoc]
        refine .surrogates number ?_ ?_
        · rwa [show 0xD800 + ((high - 0xD800) * 0x400 + (low - 0xDC00)) / 0x400 = high by omega]
        · rwa [show 0xDC00 + ((high - 0xD800) * 0x400 + (low - 0xDC00)) % 0x400 = low by omega]
      next => cases read
  next => cases read
  next => cases read

theorem spellsChar_of_scanEscape (read : scanEscape text = .ok (c, rest)) :
    ∃ word, '\\' :: text = word ++ rest ∧ SpellsChar c word := by
  unfold scanEscape at read
  split at read
  next => cases read
  next letter more =>
    split at read
    next isNumber =>
      unfold scanNumbered at read
      split at read
      next => cases read
      next n behind first =>
        obtain ⟨small, digits, rfl, spelled⟩ := spellsNumber_of_scanHex first
        split at read
        next => cases read
        next notLow =>
          split at read
          next isHigh =>
            rw [isNumber]
            exact spellsChar_of_scanLowSurrogate isHigh spelled read
          next notHigh =>
            obtain ⟨rfl, rfl⟩ := Prod.mk.inj (Except.ok.inj read)
            simp only [isHighSurrogate, isLowSurrogate, Bool.and_eq_true, decide_eq_true_eq]
              at notLow notHigh
            refine ⟨'\\' :: 'u' :: digits, by simp [isNumber], .number ?_⟩
            rwa [toNat_ofNat_of_lt (by omega)]
    next =>
      split at read
      next stands =>
        obtain ⟨rfl, rfl⟩ := Prod.mk.inj (Except.ok.inj read)
        refine ⟨['\\', letter], rfl, .letter ?_⟩
        unfold escapeLetter? at stands
        split at stands <;> cases stands <;> decide
      next => cases read

theorem spellsAll_of_scanString {read : List Char}
    (plain : (scanString read text).token.isPlain = true) :
    ∃ chars word, text = word ++ '"' :: (scanString read text).rest ∧ SpellsAll chars word ∧
      (scanString read text).token = .string (String.ofList (read.reverse ++ chars)) := by
  fun_induction scanString read text with
  | case1 => cases plain
  | case2 read rest => exact ⟨[], [], rfl, .nil, by simp⟩
  | case3 => cases plain
  | case4 read rest char behind escape _ inductionHypothesis =>
      obtain ⟨chars, word, same, spelled, token⟩ := inductionHypothesis plain
      obtain ⟨first, begins, spelledFirst⟩ := spellsChar_of_scanEscape escape
      refine ⟨char :: chars, first ++ word, ?_, .cons spelledFirst spelled, by simpa using token⟩
      rw [begins, List.append_assoc, ← same]
  | case5 => cases plain
  | case6 read c rest noQuote noEscape noControl inductionHypothesis =>
      obtain ⟨chars, word, same, spelled, token⟩ := inductionHypothesis plain
      have first : SpellsChar c [c] := .plain (Nat.not_lt.mp noControl) noQuote noEscape
      refine ⟨c :: chars, [c] ++ word, ?_, .cons first spelled, by simpa using token⟩
      rw [List.append_assoc, ← same, List.singleton_append]

theorem letters_of_scanWord {token : Token} {letters : List Char}
    (plain : (scanWord token letters text).token.isPlain = true) :
    text = letters ++ (scanWord token letters text).rest ∧
      (scanWord token letters text).token = token := by
  fun_induction scanWord token letters text with
  | case1 => exact ⟨rfl, rfl⟩
  | case2 => cases plain
  | case3 =>
      rename_i inductionHypothesis
      obtain ⟨same, token⟩ := inductionHypothesis plain
      exact ⟨congrArg (_ :: ·) same, token⟩
  | case4 => cases plain

theorem finishNumber_not_plain (value : Number) (text : List Char) :
    (finishNumber value text).token.isPlain = false := by
  unfold finishNumber
  split <;> rfl

theorem scanExponentDigits_not_plain (negative : Bool) (d : Decimal) (down : Bool)
    (text : List Char) : (scanExponentDigits negative d down text).token.isPlain = false := by
  unfold scanExponentDigits scanScaled
  repeat' split
  all_goals first | rfl | exact finishNumber_not_plain _ _

theorem scanExponent_not_plain (negative : Bool) (d : Decimal) (plain : Number)
    (text : List Char) : (scanExponent negative d plain text).token.isPlain = false := by
  unfold scanExponent
  repeat' split
  all_goals first | exact finishNumber_not_plain _ _ | exact scanExponentDigits_not_plain ..

theorem scanFraction_not_plain (negative : Bool) (whole text : List Char) :
    (scanFraction negative whole text).token.isPlain = false := by
  unfold scanFraction
  repeat' split
  all_goals first | rfl | exact scanExponent_not_plain ..

theorem scanNumber_not_plain (negative : Bool) (first : Char) (rest : List Char) :
    (scanNumber negative first rest).token.isPlain = false := by
  unfold scanNumber
  repeat' split
  all_goals first | rfl | exact scanFraction_not_plain ..

theorem scanNegative_not_plain (text : List Char) :
    (scanNegative text).token.isPlain = false := by
  unfold scanNegative
  repeat' split
  all_goals first | rfl | exact scanNumber_not_plain ..

theorem spellsToken_of_scanToken {first : Char}
    (plain : (scanToken first rest).token.isPlain = true) :
    ∃ word, first :: rest = word ++ (scanToken first rest).rest ∧
      SpellsToken (scanToken first rest).token word := by
  unfold scanToken at plain ⊢
  cases mark : punctuation? first with
  | some token =>
      refine ⟨[first], rfl, ?_⟩
      unfold punctuation? at mark
      split at mark <;> cases mark <;> constructor
  | none =>
      cases begins : word? first with
      | some found =>
          simp only [mark, begins] at plain ⊢
          obtain ⟨same, isToken⟩ := letters_of_scanWord plain
          refine ⟨first :: found.2, congrArg (first :: ·) same, ?_⟩
          rw [isToken]
          unfold word? at begins
          split at begins <;> cases begins <;> constructor
      | none =>
          simp only [mark, begins] at plain ⊢
          by_cases quote : first = '"'
          · rw [if_pos quote] at plain ⊢
            obtain ⟨chars, word, same, spelled, token⟩ := spellsAll_of_scanString plain
            refine ⟨'"' :: word ++ ['"'], ?_, ?_⟩
            · rw [quote, List.cons_append, List.cons_append, List.append_assoc,
                List.singleton_append, ← same]
            · rw [token]
              exact .string (by simpa using spelled)
          · rw [if_neg quote] at plain
            split at plain
            next => simp [scanNegative_not_plain] at plain
            next =>
              split at plain
              next => simp [scanNumber_not_plain] at plain
              next => cases plain

end

theorem mem_of_isSpace {c : Char} (space : isSpace c = true) : c ∈ [' ', '\t', '\n', '\r'] := by
  simp only [isSpace, Bool.or_eq_true, decide_eq_true_eq] at space
  rcases space with ((rfl | rfl) | rfl) | rfl <;> decide

theorem spells_of_tokens {text : List Char} {cut : List Token} (same : tokens text = cut)
    (plain : Plain cut) : Spells cut text := by
  unfold tokens at same
  fun_induction lexemes text generalizing cut with
  | case1 text ended =>
      cases same
      exact .done fun c listed => mem_of_isSpace (List.dropWhile_eq_nil_iff.mp ended c listed)
  | case2 text first rest found scan lexeme whole =>
      rename_i inductionHypothesis
      subst same
      rw [List.map_cons, plain_cons] at plain
      obtain ⟨word, begins, spelled⟩ := spellsToken_of_scanToken plain.1
      have split : text = text.takeWhile isSpace ++ word ++ scan.rest := by
        rw [List.append_assoc, ← begins, ← found, List.takeWhile_append_dropWhile]
      rw [split]
      have blank : ∀ c ∈ text.takeWhile isSpace, c ∈ [' ', '\t', '\n', '\r'] := fun c listed =>
        mem_of_isSpace (List.mem_takeWhile_imp listed)
      exact .token blank spelled (inductionHypothesis rfl plain.2)
  | case3 text first rest found scan lexeme =>
      -- A token with which the cutting breaks off is a fault, and those are not plain.
      rename_i notWhole
      subst same
      have faulty : ∀ {token : Token}, token.isPlain = true → token.isLast = false := by
        rintro ⟨⟩ <;> simp [Token.isPlain, Token.isLast]
      exact absurd (faulty (plain scan.token List.mem_cons_self)) notWhole

theorem isPlain_of_spells {token : Token} {word : List Char} (spells : SpellsToken token word) :
    token.isPlain = true := by
  cases spells <;> rfl

theorem plain_of_spells {spelled : List Token} {text : List Char} (spells : Spells spelled text) :
    Plain spelled := by
  induction spells with
  | done => exact plain_nil
  | token _ spelled _ inductionHypothesis =>
      exact plain_cons.mpr ⟨isPlain_of_spells spelled, inductionHypothesis⟩

/-- A text spells the tokens that it is cut to, and no others. -/
theorem spells_iff {cut : List Token} {text : List Char} :
    Spells cut text ↔ tokens text = cut ∧ Plain cut :=
  ⟨fun spells => ⟨tokens_of_spells spells, plain_of_spells spells⟩,
    fun ⟨same, plain⟩ => spells_of_tokens same plain⟩

end BlockVerilog.Json
