import BlockVerilog.Number.Text
import BlockVerilog.Text.Quoted

/-!
Why a text is no document: a fault of the JSON in it, or a value that does not fit.

A fault is found in front of, in or behind a token, which gives it a line and a column.
-/

namespace BlockVerilog.Json

/-- A text that is no JSON. -/
inductive SyntaxFault where
  | endInArray
  | endInObject
  | endInString
  | endInValue
  | expectedColon
  | expectedCommaOrBracket
  | expectedCommaOrBrace
  | expectedWord
  | expectedValue
  | invalidEscape
  | invalidNumber
  | numberOutOfRange
  | controlCharacter
  | keyNotString
  | loneSurrogate
  | brokenHexEscape
  | trailingComma
  | trailingText
  | nestedTooDeep
  deriving DecidableEq, Repr

namespace SyntaxFault

def message : SyntaxFault → String
  | endInArray => "EOF while parsing a list"
  | endInObject => "EOF while parsing an object"
  | endInString => "EOF while parsing a string"
  | endInValue => "EOF while parsing a value"
  | expectedColon => "expected `:`"
  | expectedCommaOrBracket => "expected `,` or `]`"
  | expectedCommaOrBrace => "expected `,` or `\x7d`"
  | expectedWord => "expected ident"
  | expectedValue => "expected value"
  | invalidEscape => "invalid escape"
  | invalidNumber => "invalid number"
  | numberOutOfRange => "number out of range"
  | controlCharacter => "control character (\\u0000-\\u001F) found while parsing a string"
  | keyNotString => "key must be a string"
  | loneSurrogate => "lone leading surrogate in hex escape"
  | brokenHexEscape => "unexpected end of hex escape"
  | trailingComma => "trailing comma"
  | trailingText => "trailing characters"
  | nestedTooDeep => "recursion limit exceeded"

end SyntaxFault

/-- A number as JSON writes it: a whole one of 64 bits, or a double. -/
inductive Number where
  | whole (value : Int)
  | double (value : Binary64)
  deriving DecidableEq, Repr

/-- The double a JSON number stands for. -/
def Number.toBinary64 : Number → Binary64
  | whole value => .ofInt value
  | double value => value

/-- What stands where something else should. -/
inductive Found where
  | null
  | bool (value : Bool)
  | number (value : Number)
  | string (value : String)
  | array
  | object
  deriving DecidableEq, Repr

namespace Found

def text : Found → String
  | null => "null"
  | bool value => "boolean `" ++ (if value then "true" else "false") ++ "`"
  | number (.whole value) => "integer `" ++ toString value ++ "`"
  | number (.double value) => "floating point `" ++ value.shown ++ "`"
  | string value => "string " ++ String.ofList (Text.quote value.toList)
  | array => "sequence"
  | object => "map"

end Found

/-- A value that does not fit its place in a document. -/
inductive Misfit where
  /-- Another kind of value is expected. -/
  | wrongType (found : Found) (expected : String)
  /-- A record has no field of this name. -/
  | unknownField (name : String) (known : List String)
  | duplicateField (name : String)
  | missingField (name : String)
  /-- A record written as an array ends before a field that it needs. -/
  | tooShort (length : Nat) (title : String) (fields : Nat)
  /-- Neither a boolean nor a number nor a string. -/
  | notLiteral
  deriving DecidableEq, Repr

namespace Misfit

/-- The names of a record's fields, as the message about an unknown one lists them. -/
def expectedNames (known : List String) : String :=
  let quoted := known.map fun name => "`" ++ name ++ "`"
  match quoted with
  | [first, second] => first ++ " or " ++ second
  | _ => "one of " ++ ", ".intercalate quoted

def message : Misfit → String
  | wrongType found expected => "invalid type: " ++ found.text ++ ", expected " ++ expected
  | unknownField name known =>
      "unknown field `" ++ name ++ "`, expected " ++ expectedNames known
  | duplicateField name => "duplicate field `" ++ name ++ "`"
  | missingField name => "missing field `" ++ name ++ "`"
  | tooShort length title fields =>
      "invalid length " ++ toString length ++ ", expected " ++ title ++ " with " ++
        toString fields ++ " elements"
  | notLiteral => "data did not match any variant of untagged enum FieldValue"

end Misfit

/-- Why reading stopped. -/
inductive Cause where
  | syntactic (fault : SyntaxFault)
  | misplaced (misfit : Misfit)
  deriving DecidableEq, Repr

def Cause.message : Cause → String
  | syntactic fault => fault.message
  | misplaced misfit => misfit.message

/-- Where at a token something is noticed: before it, at its first byte, or behind it. -/
inductive Edge where
  | before
  | within
  | behind
  deriving DecidableEq, Repr

/-- A cause, and the token it was noticed at, counted from the end of the text: `left` tokens are
that one and those after it. -/
structure Fault where
  cause : Cause
  left : Nat
  edge : Edge
  deriving DecidableEq, Repr

/-- A cause with its line, and the bytes of that line before it. -/
structure ReadError where
  cause : Cause
  line : Nat
  column : Nat
  deriving DecidableEq, Repr

def ReadError.message (e : ReadError) : String :=
  e.cause.message ++ " at line " ++ toString e.line ++ " column " ++ toString e.column

end BlockVerilog.Json
