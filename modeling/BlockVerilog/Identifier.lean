/-!
Legal identifiers made of arbitrary text.

`safeName` encodes a text character by character; `IsIdentifier` is the form of its results.
-/

namespace BlockVerilog.Identifier

/-- The characters that an identifier may hold anywhere but in front. -/
def isWordChar (c : Char) : Bool :=
  c.isAlphanum || c = '_'

/-- The form `[A-Za-z_][A-Za-z0-9_]*`. -/
def isIdentifier : List Char → Bool
  | [] => false
  | first :: rest => (first.isAlpha || first = '_') && rest.all isWordChar

/-- The characters that stand for themselves in a web address although they are no letters and
no digits. -/
def addressPunctuation : List Char :=
  [';', ',', '/', '?', ':', '@', '&', '=', '+', '$', '-', '.', '!', '~', '*', '\x27', '(', ')', '#']

def upperHexDigit (n : Nat) : Char :=
  (Nat.digitChar n).toUpper

/-- One byte as an underscore and two hexadecimal digits. -/
def encodeByte (byte : UInt8) : List Char :=
  ['_', upperHexDigit (byte.toNat / 16), upperHexDigit (byte.toNat % 16)]

/-- A character in an identifier: itself, or an underscore for a blank or address punctuation, or
its encoded bytes. -/
def encodeChar (c : Char) : List Char :=
  if isWordChar c then [c]
  else if c = ' ' ∨ c ∈ addressPunctuation then ['_']
  else (String.utf8EncodeChar c).flatMap encodeByte

/-- What is put in front of a name that starts with a digit. -/
def digitLead : List Char := ['m', 'y', '_']

/-- The name of the empty text. -/
def unnamed : List Char := ['u', 'n', 'n', 'a', 'm', 'e', 'd']

/-- An identifier for a text. -/
def encode (text : List Char) : List Char :=
  match text.flatMap encodeChar with
  | [] => unnamed
  | first :: rest => if first.isDigit then digitLead ++ first :: rest else first :: rest

/-- `encode` on strings. -/
def safeName (text : String) : String :=
  String.ofList (encode text.toList)

end BlockVerilog.Identifier
