import BlockVerilog.Json.Lexeme

/-!
The spellings of JSON tokens.

A token may be spelled in many ways: white space stands in front of it, and a character of a string
stands for itself, behind a backslash, or as a number. `Spells` says which texts spell a list of
tokens. Whatever the spelling, cutting the text gives the tokens again.
-/

namespace BlockVerilog.Json

/-- The letters that stand for characters behind a backslash. -/
def escapeLetters : List (Char × Char) :=
  [('"', '"'), ('\\', '\\'), ('/', '/'), ('b', '\x08'), ('f', '\x0c'), ('n', '\n'), ('r', '\r'),
    ('t', '\t')]

/-- A hexadecimal digit, as a small letter or a capital. -/
inductive SpellsDigit : Nat → Char → Prop
  | small {n : Nat} (below : n < 16) : SpellsDigit n (Nat.digitChar n)
  | capital {n : Nat} (below : n < 16) : SpellsDigit n (Nat.digitChar n).toUpper

/-- Four hexadecimal digits. -/
inductive SpellsNumber : Nat → List Char → Prop
  | digits {n : Nat} {a b c d : Char} (first : SpellsDigit (n / 0x1000) a)
      (second : SpellsDigit (n / 0x100 % 16) b) (third : SpellsDigit (n / 16 % 16) c)
      (fourth : SpellsDigit (n % 16) d) : SpellsNumber n [a, b, c, d]

/-- A character of a string. -/
inductive SpellsChar : Char → List Char → Prop
  | plain {c : Char} (noControl : 0x20 ≤ c.toNat) (noQuote : c ≠ '"') (noEscape : c ≠ '\\') :
      SpellsChar c [c]
  | letter {letter c : Char} (known : (letter, c) ∈ escapeLetters) :
      SpellsChar c ['\\', letter]
  | number {c : Char} {digits : List Char} (spelled : SpellsNumber c.toNat digits) :
      SpellsChar c ('\\' :: 'u' :: digits)
  /-- A character beyond the numbers of four digits, as a pair of surrogates. -/
  | surrogates {c : Char} {high low : List Char} {n : Nat} (beyond : c.toNat = 0x10000 + n)
      (first : SpellsNumber (0xD800 + n / 0x400) high)
      (second : SpellsNumber (0xDC00 + n % 0x400) low) :
      SpellsChar c ('\\' :: 'u' :: high ++ '\\' :: 'u' :: low)

/-- The characters of a string, one after the other. -/
inductive SpellsAll : List Char → List Char → Prop
  | nil : SpellsAll [] []
  | cons {c : Char} {spelled : List Char} {chars text : List Char}
      (first : SpellsChar c spelled) (rest : SpellsAll chars text) :
      SpellsAll (c :: chars) (spelled ++ text)

/-- A single token. -/
inductive SpellsToken : Token → List Char → Prop
  | openBrace : SpellsToken .openBrace ['\x7b']
  | closeBrace : SpellsToken .closeBrace ['\x7d']
  | openBracket : SpellsToken .openBracket ['[']
  | closeBracket : SpellsToken .closeBracket [']']
  | colon : SpellsToken .colon [':']
  | comma : SpellsToken .comma [',']
  | null : SpellsToken .null ['n', 'u', 'l', 'l']
  | yes : SpellsToken (.bool true) ['t', 'r', 'u', 'e']
  | no : SpellsToken (.bool false) ['f', 'a', 'l', 's', 'e']
  | string {value : String} {text : List Char} (spelled : SpellsAll value.toList text) :
      SpellsToken (.string value) ('"' :: text ++ ['"'])

/-- Tokens with white space around them. -/
inductive Spells : List Token → List Char → Prop
  | done {space : List Char} (blank : ∀ c ∈ space, c ∈ [' ', '\t', '\n', '\r']) : Spells [] space
  | token {token : Token} {tokens : List Token} {space word text : List Char}
      (blank : ∀ c ∈ space, c ∈ [' ', '\t', '\n', '\r']) (spelled : SpellsToken token word)
      (more : Spells tokens text) : Spells (token :: tokens) (space ++ word ++ text)

section

variable {n : Nat} {c : Char} {digits rest : List Char}

theorem hexDigit?_of_spells (spelled : SpellsDigit n c) : hexDigit? c = some n := by
  have both : ∀ n < 16, hexDigit? (Nat.digitChar n) = some n ∧
      hexDigit? (Nat.digitChar n).toUpper = some n := by decide
  cases spelled with
  | small below => exact (both n below).1
  | capital below => exact (both n below).2

theorem scanHex_of_spells (spelled : SpellsNumber n digits) (rest : List Char) :
    scanHex (digits ++ rest) = .ok (n, rest) := by
  obtain ⟨first, second, third, fourth⟩ := spelled
  simp only [scanHex, List.cons_append, List.nil_append, hexDigit?_of_spells first,
    hexDigit?_of_spells second, hexDigit?_of_spells third, hexDigit?_of_spells fourth]
  have joined : ((n / 0x1000 * 16 + n / 0x100 % 16) * 16 + n / 16 % 16) * 16 + n % 16 = n := by
    omega
  rw [joined]

theorem toNat_valid (c : Char) : c.toNat < 0xD800 ∨ 0xDFFF < c.toNat ∧ c.toNat < 0x110000 :=
  c.valid

/-- The numbers of surrogates belong to no character. -/
theorem no_surrogate (c : Char) :
    isLowSurrogate c.toNat = false ∧ isHighSurrogate c.toNat = false := by
  have valid := toNat_valid c
  simp only [isLowSurrogate, isHighSurrogate, Bool.and_eq_false_iff, decide_eq_false_iff_not]
  omega

theorem scanEscape_number (spelled : SpellsNumber c.toNat digits) (rest : List Char) :
    scanEscape ('u' :: digits ++ rest) = .ok (c, rest) := by
  have noSurrogate := no_surrogate c
  simp [scanEscape, scanNumbered, scanHex_of_spells spelled, noSurrogate]

theorem joinSurrogates_eq (beyond : c.toNat = 0x10000 + n) :
    joinSurrogates (0xD800 + n / 0x400) (0xDC00 + n % 0x400) = c := by
  have joined : 0x10000 + (0xD800 + n / 0x400 - 0xD800) * 0x400 + (0xDC00 + n % 0x400 - 0xDC00) =
      c.toNat := by omega
  rw [joinSurrogates, joined, Char.ofNat_toNat]

theorem scanEscape_surrogates {high low : List Char} (beyond : c.toNat = 0x10000 + n)
    (first : SpellsNumber (0xD800 + n / 0x400) high)
    (second : SpellsNumber (0xDC00 + n % 0x400) low) (rest : List Char) :
    scanEscape ('u' :: high ++ '\\' :: 'u' :: low ++ rest) = .ok (c, rest) := by
  have valid := toNat_valid c
  have isHigh : isHighSurrogate (0xD800 + n / 0x400) = true := by
    simp only [isHighSurrogate, Bool.and_eq_true, decide_eq_true_eq]
    omega
  have notLow : isLowSurrogate (0xD800 + n / 0x400) = false := by
    simp only [isLowSurrogate, Bool.and_eq_false_iff, decide_eq_false_iff_not]
    omega
  have isLow : isLowSurrogate (0xDC00 + n % 0x400) = true := by
    simp only [isLowSurrogate, Bool.and_eq_true, decide_eq_true_eq]
    omega
  simp [scanEscape, scanNumbered, scanHex_of_spells first, scanHex_of_spells second, isHigh,
    notLow, isLow, scanLowSurrogate, joinSurrogates_eq beyond]

theorem scanEscape_letter {letter : Char} (known : (letter, c) ∈ escapeLetters)
    (rest : List Char) : scanEscape (letter :: rest) = .ok (c, rest) := by
  have each : ∀ entry ∈ escapeLetters, entry.1 ≠ 'u' ∧ escapeLetter? entry.1 = some entry.2 := by
    decide
  obtain ⟨noNumber, stands⟩ := each _ known
  simp [scanEscape, noNumber, stands]

theorem scanString_of_escape {char : Char} {read text rest : List Char}
    (escape : scanEscape text = .ok (char, rest)) :
    scanString read ('\\' :: text) = scanString (char :: read) rest := by
  rw [scanString, if_neg (by decide), if_pos rfl]
  split
  next fault => simp [escape] at fault
  next found =>
    rw [escape] at found
    cases found
    rfl

theorem scanString_of_spellsChar {spelled : List Char} (spells : SpellsChar c spelled)
    (read rest : List Char) :
    scanString read (spelled ++ rest) = scanString (c :: read) rest := by
  cases spells with
  | plain noControl noQuote noEscape =>
      rw [List.singleton_append, scanString, if_neg noQuote, if_neg noEscape,
        if_neg (Nat.not_lt.mpr noControl)]
  | letter known => exact scanString_of_escape (scanEscape_letter known rest)
  | number spelled => exact scanString_of_escape (scanEscape_number spelled rest)
  | surrogates beyond first second =>
      exact scanString_of_escape (scanEscape_surrogates beyond first second rest)

theorem scanString_of_spells {chars text : List Char} (spells : SpellsAll chars text)
    (read rest : List Char) :
    scanString read (text ++ '"' :: rest) =
      ⟨.string (String.ofList (read.reverse ++ chars)), rest, 0⟩ := by
  induction spells generalizing read with
  | nil => rw [List.nil_append, scanString, if_pos rfl, List.append_nil]
  | @cons c spelled chars text first _ inductionHypothesis =>
      rw [List.append_assoc, scanString_of_spellsChar first, inductionHypothesis,
        List.reverse_cons, List.append_assoc, List.singleton_append]

theorem scanToken_of_spells {token : Token} {word : List Char} (spells : SpellsToken token word)
    (rest : List Char) :
    ∃ first more, word ++ rest = first :: more ∧ isSpace first = false ∧
      token.isLast = false ∧ scanToken first more = ⟨token, rest, 0⟩ := by
  cases spells with
  | @string value text spelled =>
      refine ⟨'"', text ++ '"' :: rest, by simp, rfl, rfl, ?_⟩
      simpa [scanToken, punctuation?, word?] using scanString_of_spells spelled [] rest
  | _ => exact ⟨_, _, rfl, rfl, rfl, rfl⟩

theorem dropWhile_space {space : List Char} (blank : ∀ c ∈ space, c ∈ [' ', '\t', '\n', '\r'])
    (text : List Char) : (space ++ text).dropWhile isSpace = text.dropWhile isSpace := by
  have each : ∀ c ∈ [' ', '\t', '\n', '\r'], isSpace c = true := by simp [isSpace]
  exact List.dropWhile_append_of_pos fun c listed => each c (blank c listed)

theorem tokens_of_dropWhile_nil {text : List Char} (ended : text.dropWhile isSpace = []) :
    tokens text = [] := by
  unfold tokens lexemes
  split
  next => rfl
  next found => simp [ended] at found

theorem tokens_of_dropWhile_cons {text more rest : List Char} {first : Char} {token : Token}
    (begins : text.dropWhile isSpace = first :: more)
    (scanned : scanToken first more = ⟨token, rest, 0⟩) (whole : token.isLast = false) :
    tokens text = token :: tokens rest := by
  unfold tokens
  conv => lhs; unfold lexemes
  split
  next ended => simp [begins] at ended
  next other behind found =>
    obtain ⟨rfl, rfl⟩ := List.cons.inj (begins.symm.trans found)
    simp only [scanned]
    rw [dif_pos whole, List.map_cons]

/-- Whatever the spelling, cutting a text gives the tokens that it spells. -/
theorem tokens_of_spells {spelled : List Token} {text : List Char} (spells : Spells spelled text) :
    tokens text = spelled := by
  induction spells with
  | @done space blank =>
      have ended := dropWhile_space blank []
      rw [List.append_nil] at ended
      exact tokens_of_dropWhile_nil ended
  | @token token spelled space word text blank spellsToken _ inductionHypothesis =>
      obtain ⟨first, more, begins, solid, whole, scanned⟩ := scanToken_of_spells spellsToken text
      have found : (space ++ word ++ text).dropWhile isSpace = first :: more := by
        rw [List.append_assoc, dropWhile_space blank, begins,
          List.dropWhile_cons_of_neg (by simp [solid])]
      rw [tokens_of_dropWhile_cons found scanned whole, inductionHypothesis]

theorem exists_spellsNumber {n : Nat} (small : n < 0x10000) :
    ∃ digits, SpellsNumber n digits :=
  ⟨_, .digits (.small (by omega)) (.small (by omega)) (.small (by omega)) (.small (by omega))⟩

theorem exists_spellsChar (c : Char) : ∃ spelled, SpellsChar c spelled := by
  by_cases control : c.toNat < 0x20
  · obtain ⟨digits, spelled⟩ := exists_spellsNumber (n := c.toNat) (by omega)
    exact ⟨_, .number spelled⟩
  · by_cases quote : c = '"'
    · have known : ('"', c) ∈ escapeLetters := by simp [quote, escapeLetters]
      exact ⟨_, .letter known⟩
    · by_cases escape : c = '\\'
      · have known : ('\\', c) ∈ escapeLetters := by simp [escape, escapeLetters]
        exact ⟨_, .letter known⟩
      · exact ⟨_, .plain (Nat.not_lt.mp control) quote escape⟩

theorem exists_spellsAll (chars : List Char) : ∃ text, SpellsAll chars text := by
  induction chars with
  | nil => exact ⟨[], .nil⟩
  | cons c chars inductionHypothesis =>
      obtain ⟨spelled, first⟩ := exists_spellsChar c
      obtain ⟨text, rest⟩ := inductionHypothesis
      exact ⟨_, .cons first rest⟩

end

/-- The tokens that texts without numbers and faults have. -/
def Token.isPlain : Token → Bool
  | number _ | brokenString _ | broken _ | stray => false
  | _ => true

/-- Tokens that can be spelled. -/
def Plain (tokens : List Token) : Prop := ∀ token ∈ tokens, token.isPlain = true

instance (tokens : List Token) : Decidable (Plain tokens) :=
  inferInstanceAs (Decidable (∀ token ∈ tokens, token.isPlain = true))

theorem plain_nil : Plain [] := nofun

theorem plain_cons {token : Token} {tokens : List Token} :
    Plain (token :: tokens) ↔ token.isPlain = true ∧ Plain tokens :=
  List.forall_mem_cons

theorem plain_append {first second : List Token} :
    Plain (first ++ second) ↔ Plain first ∧ Plain second :=
  List.forall_mem_append

theorem exists_spellsToken {token : Token} (plain : token.isPlain = true) :
    ∃ word, SpellsToken token word := by
  cases token with
  | openBrace => exact ⟨_, .openBrace⟩
  | closeBrace => exact ⟨_, .closeBrace⟩
  | openBracket => exact ⟨_, .openBracket⟩
  | closeBracket => exact ⟨_, .closeBracket⟩
  | colon => exact ⟨_, .colon⟩
  | comma => exact ⟨_, .comma⟩
  | null => exact ⟨_, .null⟩
  | bool value =>
      cases value with
      | true => exact ⟨_, .yes⟩
      | false => exact ⟨_, .no⟩
  | string value =>
      obtain ⟨text, spelled⟩ := exists_spellsAll value.toList
      exact ⟨_, .string spelled⟩
  | number value | brokenString fault | broken fault | stray => cases plain

theorem exists_spells {tokens : List Token} (plain : Plain tokens) :
    ∃ text, Spells tokens text := by
  induction tokens with
  | nil => exact ⟨[], .done nofun⟩
  | cons token tokens inductionHypothesis =>
      rw [plain_cons] at plain
      obtain ⟨word, spelled⟩ := exists_spellsToken plain.1
      obtain ⟨text, more⟩ := inductionHypothesis plain.2
      exact ⟨[] ++ word ++ text, .token nofun spelled more⟩

end BlockVerilog.Json
