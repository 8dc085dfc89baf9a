import BlockVerilog.Json.Fault
import BlockVerilog.Number.Scaled

/-!
The tokens of JSON texts.

`lexemes` cuts a text into tokens up to the first one that breaks off. Every step hands on a rest
that is no longer than what it was given, which is why it ends.
-/

namespace BlockVerilog.Json

inductive Token where
  | openBrace
  | closeBrace
  | openBracket
  | closeBracket
  | colon
  | comma
  | null
  | bool (value : Bool)
  | number (value : Number)
  | string (value : String)
  /-- A string with a fault in it. -/
  | brokenString (fault : SyntaxFault)
  /-- A number or a word with a fault in it. -/
  | broken (fault : SyntaxFault)
  /-- A character that starts no token. -/
  | stray
  deriving DecidableEq, Repr

namespace Token

/-- Whether the text is cut no further behind the token. -/
def isLast : Token → Bool
  | brokenString _ | broken _ | stray => true
  | _ => false

end Token

/-- A token read from the front of a text, and the text behind it. A fault inside the token lies
`ahead` bytes behind the start of that rest. -/
structure Scan where
  token : Token
  rest : List Char
  ahead : Nat := 0

/-- The letters of a word behind its first. -/
def scanWord (token : Token) : (letters text : List Char) → Scan
  | [], text => ⟨token, text, 0⟩
  | _ :: _, [] => ⟨.broken .endInValue, [], 0⟩
  | letter :: letters, c :: text =>
      if c = letter then scanWord token letters text
      else ⟨.broken .expectedWord, c :: text, 1⟩

/-- A whole number: one of 64 bits as such, any other as a double, and so is a negative zero. -/
def wholeNumber (negative : Bool) (digits : List Char) : Number :=
  let n := Numeral.ofDigits digits
  if negative then
    if n = 0 ∨ Nat.pow 2 63 < n then .double ((Decimal.ofLeading digits []).scaled true)
    else .whole (-(n : Int))
  else
    if n < Nat.pow 2 64 then .whole n
    else .double ((Decimal.ofLeading digits []).scaled false)

/-- A finished number; one beyond the doubles is a fault behind it. -/
def finishNumber (value : Number) (text : List Char) : Scan :=
  if value.toBinary64.isFinite then ⟨.number value, text, 0⟩
  else ⟨.broken .numberOutOfRange, text, 0⟩

/-- No exponent is larger. -/
def maxExponent : Nat := Nat.pow 2 31 - 1

/-- The text behind the digit with which an exponent becomes too large; nothing if it never does.
The digits before the text write `size`. -/
def behindOversize? (size : Nat) : (text : List Char) → Option (List Char)
  | [] => none
  | c :: text =>
      if c.isDigit then
        let size := size * 10 + Numeral.digitValue c
        if maxExponent < size then some text else behindOversize? size text
      else none

/-- A number with its exponent, of which `text` starts with the digits. -/
def scanScaled (negative : Bool) (d : Decimal) (down : Bool) (text : List Char) : Scan :=
  let size : Int := Numeral.ofDigits (text.takeWhile Char.isDigit)
  let shifted : Decimal := ⟨d.coefficient, d.exponent + if down then -size else size⟩
  finishNumber (.double (shifted.scaled negative)) (text.dropWhile Char.isDigit)

/-- The digits of an exponent behind its mark and sign. Those of one that is too large are read
to their end only where the number is zero or close to it. -/
def scanExponentDigits (negative : Bool) (d : Decimal) (down : Bool) (text : List Char) : Scan :=
  match text with
  | [] => ⟨.broken .endInValue, [], 0⟩
  | first :: rest =>
      if first.isDigit then
        if down ∨ d.coefficient = 0 then scanScaled negative d down (first :: rest)
        else
          match behindOversize? 0 (first :: rest) with
          | some rest => ⟨.broken .numberOutOfRange, rest, 0⟩
          | none => scanScaled negative d down (first :: rest)
      else ⟨.broken .invalidNumber, first :: rest, 1⟩

/-- What may follow the digits of a number: an exponent. Without one the number is `plain`. -/
def scanExponent (negative : Bool) (d : Decimal) (plain : Number) (text : List Char) : Scan :=
  match text with
  | [] => finishNumber plain []
  | mark :: rest =>
      if mark = 'e' ∨ mark = 'E' then
        match rest with
        | '-' :: digits => scanExponentDigits negative d true digits
        | '+' :: digits => scanExponentDigits negative d false digits
        | digits => scanExponentDigits negative d false digits
      else finishNumber plain (mark :: rest)

/-- What may follow the whole part of a number: places behind a point, and an exponent. -/
def scanFraction (negative : Bool) (whole : List Char) (text : List Char) : Scan :=
  match text with
  | '.' :: rest =>
      match rest.takeWhile Char.isDigit with
      | [] =>
          if rest = [] then ⟨.broken .endInValue, [], 0⟩ else ⟨.broken .invalidNumber, rest, 1⟩
      | places =>
          let d := Decimal.ofLeading whole places
          scanExponent negative d (.double (d.scaled negative)) (rest.dropWhile Char.isDigit)
  | text => scanExponent negative (.ofLeading whole []) (wholeNumber negative whole) text

/-- A number from its first digit on. A zero in front stands alone. -/
def scanNumber (negative : Bool) (first : Char) (rest : List Char) : Scan :=
  if first = '0' then
    if rest.head?.any Char.isDigit then ⟨.broken .invalidNumber, rest, 1⟩
    else scanFraction negative ['0'] rest
  else
    scanFraction negative (first :: rest.takeWhile Char.isDigit) (rest.dropWhile Char.isDigit)

/-- A number behind its minus sign. -/
def scanNegative (text : List Char) : Scan :=
  match text with
  | [] => ⟨.broken .endInValue, [], 0⟩
  | first :: rest =>
      if first.isDigit then scanNumber true first rest
      else ⟨.broken .invalidNumber, first :: rest, 1⟩

/-- A fault in a string, `ahead` bytes behind the start of the rest. -/
structure StringFault where
  fault : SyntaxFault
  rest : List Char
  ahead : Nat

def hexDigit? (c : Char) : Option Nat :=
  if c.isDigit then some (c.toNat - '0'.toNat)
  else if 'a' ≤ c ∧ c ≤ 'f' then some (c.toNat - 'a'.toNat + 10)
  else if 'A' ≤ c ∧ c ≤ 'F' then some (c.toNat - 'A'.toNat + 10)
  else none

/-- What does not start with four hexadecimal digits: a text of less than four bytes ends too
early, and of any other the first four are wrong. -/
def hexFault (text : List Char) : StringFault :=
  if (String.ofList (text.take 4)).utf8ByteSize < 4 then ⟨.endInString, [], 0⟩
  else ⟨.invalidEscape, text, 4⟩

/-- A number of four hexadecimal digits, and the text behind it. -/
def scanHex (text : List Char) : Except StringFault (Nat × List Char) :=
  match text with
  | a :: b :: c :: d :: rest =>
      match hexDigit? a, hexDigit? b, hexDigit? c, hexDigit? d with
      | some a, some b, some c, some d => .ok (((a * 16 + b) * 16 + c) * 16 + d, rest)
      | _, _, _, _ => .error (hexFault text)
  | _ => .error (hexFault text)

def isHighSurrogate (n : Nat) : Bool := 0xD800 ≤ n && n ≤ 0xDBFF

def isLowSurrogate (n : Nat) : Bool := 0xDC00 ≤ n && n ≤ 0xDFFF

/-- The character of a pair of surrogates. -/
def joinSurrogates (high low : Nat) : Char :=
  Char.ofNat (0x10000 + (high - 0xD800) * 0x400 + (low - 0xDC00))

/-- The second half of a pair of surrogates, behind the number of the first. -/
def scanLowSurrogate (high : Nat) (text : List Char) : Except StringFault (Char × List Char) :=
  match text with
  | [] => .error ⟨.endInString, [], 0⟩
  | '\\' :: [] => .error ⟨.endInString, [], 0⟩
  | '\\' :: 'u' :: rest =>
      match scanHex rest with
      | .error fault => .error fault
      | .ok (low, rest) =>
          if isLowSurrogate low then .ok (joinSurrogates high low, rest)
          else .error ⟨.loneSurrogate, rest, 0⟩
  | '\\' :: rest => .error ⟨.brokenHexEscape, rest, 1⟩
  | rest => .error ⟨.brokenHexEscape, rest, 1⟩

/-- A character by its number, or by those of two surrogates. -/
def scanNumbered (text : List Char) : Except StringFault (Char × List Char) :=
  match scanHex text with
  | .error fault => .error fault
  | .ok (n, rest) =>
      if isLowSurrogate n then .error ⟨.loneSurrogate, rest, 0⟩
      else if isHighSurrogate n then scanLowSurrogate n rest
      else .ok (Char.ofNat n, rest)

/-- The character that a letter stands for behind a backslash. -/
def escapeLetter? : Char → Option Char
  | '"' => some '"'
  | '\\' => some '\\'
  | '/' => some '/'
  | 'b' => some '\x08'
  | 'f' => some '\x0c'
  | 'n' => some '\n'
  | 'r' => some '\r'
  | 't' => some '\t'
  | _ => none

/-- An escape behind its backslash, and the text behind it. -/
def scanEscape (text : List Char) : Except StringFault (Char × List Char) :=
  match text with
  | [] => .error ⟨.endInString, [], 0⟩
  | letter :: rest =>
      if letter = 'u' then scanNumbered rest
      else
        match escapeLetter? letter with
        | some c => .ok (c, rest)
        | none => .error ⟨.invalidEscape, letter :: rest, 1⟩

theorem length_of_scanHex {text rest : List Char} {n : Nat} (read : scanHex text = .ok (n, rest)) :
    rest.length ≤ text.length := by
  unfold scanHex at read
  split at read
  next =>
    split at read
    next => cases read; simp; omega
    next => cases read
  next => cases read

theorem length_of_scanLowSurrogate {high : Nat} {text rest : List Char} {c : Char}
    (read : scanLowSurrogate high text = .ok (c, rest)) : rest.length ≤ text.length := by
  unfold scanLowSurrogate at read
  split at read
  next => cases read
  next => cases read
  next =>
    split at read
    next => cases read
    next low =>
      have := length_of_scanHex low
      split at read
      next =>
        simp only [Except.ok.injEq, Prod.mk.injEq] at read
        simp [← read.2]
        omega
      next => cases read
  next => cases read
  next => cases read

theorem length_of_scanNumbered {text rest : List Char} {c : Char}
    (read : scanNumbered text = .ok (c, rest)) : rest.length ≤ text.length := by
  unfold scanNumbered at read
  split at read
  next => cases read
  next first =>
    have := length_of_scanHex first
    split at read
    next => cases read
    next =>
      split at read
      next => exact Nat.le_trans (length_of_scanLowSurrogate read) this
      next =>
        simp only [Except.ok.injEq, Prod.mk.injEq] at read
        exact read.2 ▸ this

theorem length_of_scanEscape {text rest : List Char} {c : Char}
    (read : scanEscape text = .ok (c, rest)) : rest.length < text.length := by
  unfold scanEscape at read
  split at read
  next => cases read
  next =>
    split at read
    next => exact Nat.lt_succ_of_le (length_of_scanNumbered read)
    next =>
      split at read
      next => cases read; simp
      next => cases read

/-- A string behind its quotation mark; `read` holds its characters so far, the last one first. -/
def scanString (read text : List Char) : Scan :=
  match text with
  | [] => ⟨.brokenString .endInString, [], 0⟩
  | c :: rest =>
      if c = '"' then ⟨.string (String.ofList read.reverse), rest, 0⟩
      else if c = '\\' then
        match _escape : scanEscape rest with
        | .error fault => ⟨.brokenString fault.fault, fault.rest, fault.ahead⟩
        | .ok (char, rest) => scanString (char :: read) rest
      else if c.toNat < 0x20 then ⟨.brokenString .controlCharacter, rest, 0⟩
      else scanString (c :: read) rest
termination_by text.length
decreasing_by
  · exact Nat.lt_succ_of_lt (length_of_scanEscape _escape)
  · simp

/-- The tokens of one character. -/
def punctuation? : Char → Option Token
  | '\x7b' => some .openBrace
  | '\x7d' => some .closeBrace
  | '[' => some .openBracket
  | ']' => some .closeBracket
  | ':' => some .colon
  | ',' => some .comma
  | _ => none

/-- The words, each with the letters behind its first one. -/
def word? : Char → Option (Token × List Char)
  | 'n' => some (.null, ['u', 'l', 'l'])
  | 't' => some (.bool true, ['r', 'u', 'e'])
  | 'f' => some (.bool false, ['a', 'l', 's', 'e'])
  | _ => none

/-- The token that starts with a character, read on in the text behind it. -/
def scanToken (first : Char) (rest : List Char) : Scan :=
  match punctuation? first, word? first with
  | some token, _ => ⟨token, rest, 0⟩
  | none, some (token, letters) => scanWord token letters rest
  | none, none =>
      if first = '"' then scanString [] rest
      else if first = '-' then scanNegative rest
      else if first.isDigit then scanNumber false first rest
      else ⟨.stray, rest, 0⟩

theorem length_scanWord_le (token : Token) (letters text : List Char) :
    (scanWord token letters text).rest.length ≤ text.length := by
  fun_induction scanWord token letters text with
  | case1 | case2 | case4 => simp
  | case3 => simp; omega

theorem length_dropWhile_le (p : Char → Bool) (text : List Char) :
    (text.dropWhile p).length ≤ text.length :=
  (List.dropWhile_sublist p).length_le

theorem length_finishNumber (value : Number) (text : List Char) :
    (finishNumber value text).rest.length = text.length := by
  unfold finishNumber
  split <;> rfl

theorem length_behindOversize_le {size : Nat} {text rest : List Char}
    (found : behindOversize? size text = some rest) : rest.length ≤ text.length := by
  fun_induction behindOversize? size text with
  | case1 | case4 => cases found
  | case2 => cases found; simp
  | case3 _ _ _ _ _ _ ih => exact Nat.le_succ_of_le (ih found)

theorem length_scanScaled_le (negative : Bool) (d : Decimal) (down : Bool) (text : List Char) :
    (scanScaled negative d down text).rest.length ≤ text.length := by
  simp only [scanScaled, length_finishNumber]
  exact length_dropWhile_le _ _

theorem length_scanExponentDigits_le (negative : Bool) (d : Decimal) (down : Bool)
    (text : List Char) : (scanExponentDigits negative d down text).rest.length ≤ text.length := by
  unfold scanExponentDigits
  split
  next => simp
  next =>
    split
    next =>
      split
      next => exact length_scanScaled_le ..
      next =>
        split
        next found => exact length_behindOversize_le found
        next => exact length_scanScaled_le ..
    next => simp

theorem length_scanExponent_le (negative : Bool) (d : Decimal) (plain : Number)
    (text : List Char) : (scanExponent negative d plain text).rest.length ≤ text.length := by
  unfold scanExponent
  split
  next => simp [length_finishNumber]
  next =>
    split
    next =>
      split <;> refine Nat.le_trans (length_scanExponentDigits_le ..) ?_ <;> simp <;> omega
    next => simp [length_finishNumber]

theorem length_scanFraction_le (negative : Bool) (whole text : List Char) :
    (scanFraction negative whole text).rest.length ≤ text.length := by
  unfold scanFraction
  split
  next rest =>
    have := length_dropWhile_le Char.isDigit rest
    split
    next => split <;> simp
    next =>
      refine Nat.le_trans (length_scanExponent_le ..) ?_
      simp
      omega
  next => exact length_scanExponent_le ..

theorem length_scanNumber_le (negative : Bool) (first : Char) (rest : List Char) :
    (scanNumber negative first rest).rest.length ≤ rest.length := by
  unfold scanNumber
  split
  next =>
    split
    next => simp
    next => exact length_scanFraction_le ..
  next => exact Nat.le_trans (length_scanFraction_le ..) (length_dropWhile_le ..)

theorem length_scanNegative_le (text : List Char) :
    (scanNegative text).rest.length ≤ text.length := by
  unfold scanNegative
  split
  next => simp
  next =>
    split
    next => exact Nat.le_succ_of_le (length_scanNumber_le ..)
    next => simp

/-- The white space of JSON. -/
def isSpace (c : Char) : Bool :=
  c = ' ' || c = '\n' || c = '\t' || c = '\r'

end BlockVerilog.Json
