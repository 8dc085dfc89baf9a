import BlockVerilog.Json.Token

/-!
The token stream of a text, with the place of each token in it.

`lexemes` cuts a text up to the first token that breaks off; every token takes at least a
character, so the stream ends. `Fault.locate` turns a fault at a token into a line and a column.
-/

namespace BlockVerilog.Json

theorem length_scanString_le {read text : List Char}
    (whole : (scanString read text).token.isLast = false) :
    (scanString read text).rest.length ≤ text.length := by
  fun_induction scanString read text with
  | case1 => simp
  | case2 => simp
  | case3 => simp [Token.isLast] at whole
  | case4 =>
      rename_i escape _ inductionHypothesis
      have := length_of_scanEscape escape
      have := inductionHypothesis whole
      simp
      omega
  | case5 => simp
  | case6 read c rest _ _ _ inductionHypothesis =>
      have := inductionHypothesis whole
      simp
      omega

theorem length_scanToken_le {first : Char} {rest : List Char}
    (whole : (scanToken first rest).token.isLast = false) :
    (scanToken first rest).rest.length ≤ rest.length := by
  unfold scanToken at whole ⊢
  split
  next => exact Nat.le_refl _
  next => exact length_scanWord_le ..
  next noMark noWord =>
    rw [noMark, noWord] at whole
    simp only at whole
    split
    next quote =>
      rw [if_pos quote] at whole
      exact length_scanString_le whole
    next =>
      split
      next => exact length_scanNegative_le ..
      next =>
        split
        next => exact length_scanNumber_le ..
        next => exact Nat.le_refl _

/-- A token, the text from its first character on, and the text behind it; a fault inside it lies
`ahead` bytes behind the start of the latter. -/
structure Lexeme where
  token : Token
  start : List Char
  stop : List Char
  ahead : Nat

/-- The tokens of a text, up to the first that breaks off. -/
def lexemes (text : List Char) : List Lexeme :=
  match _found : text.dropWhile isSpace with
  | [] => []
  | first :: rest =>
      let scan := scanToken first rest
      let lexeme : Lexeme := ⟨scan.token, first :: rest, scan.rest, scan.ahead⟩
      if _whole : scan.token.isLast = false then lexeme :: lexemes scan.rest else [lexeme]
termination_by text.length
decreasing_by
  have := length_scanToken_le _whole
  have := length_dropWhile_le isSpace text
  simp [_found] at this
  omega

/-- The tokens of a text without their places. -/
def tokens (text : List Char) : List Token := (lexemes text).map Lexeme.token

/-- The bytes of a text in UTF-8. -/
def bytes (text : List Char) : List UInt8 := text.flatMap String.utf8EncodeChar

/-- How many bytes of a text lie before one of its ends. -/
def offsetOf (text ending : List Char) : Nat :=
  (bytes text).length - (bytes ending).length

/-- How many bytes of a text lie before a fault in it. -/
def Fault.offset (fault : Fault) (text : List Char) : Nat :=
  let all := lexemes text
  match all[all.length - fault.left]? with
  | none => (bytes text).length
  | some lexeme =>
      match fault.edge with
      | .before => offsetOf text lexeme.start
      | .within => offsetOf text lexeme.start + 1
      | .behind => offsetOf text lexeme.stop + lexeme.ahead

/-- The line and column of a fault, in bytes; a column is the number of bytes before it. -/
def Fault.locate (fault : Fault) (text : List Char) : ReadError :=
  let before := (bytes text).take (fault.offset text)
  ⟨fault.cause, 1 + before.count 10, (before.reverse.takeWhile (· ≠ 10)).length⟩

end BlockVerilog.Json
