import BlockVerilog.Text.Blank
import BlockVerilog.Number.Decimal

/-!
Verilog literals with a width: `5` is `3'b101`, `3'h5` or `3'o5`.
-/

namespace BlockVerilog

/-- The radices of a sized literal. -/
inductive Radix where
  | binary
  | hex
  | octal
  deriving DecidableEq, Repr

namespace Radix

def base : Radix → Nat
  | binary => 2
  | hex => 16
  | octal => 8

/-- The letter that announces the radix. -/
def letter : Radix → Char
  | binary => 'b'
  | hex => 'h'
  | octal => 'o'

end Radix

/-- The number of binary digits of a number. -/
def bitWidth (n : Nat) : Nat :=
  if n = 0 then 1 else n.log2 + 1

/-- The unsigned number a text denotes: a whole numeral below `2 ^ 128`, or a number whose double
is whole, not negative and below `2 ^ 64`. -/
def parseUnsigned (text : List Char) : Option Nat :=
  let digits := Text.trim text
  match Numeral.parseNat (Nat.pow 2 128) digits with
  | some n => some n
  | none =>
      match Numeral.parseNumber digits with
      | none => none
      | some x => if x.isNegative then none else x.natAbs?.filter (· < Nat.pow 2 64)

/-- The literal of a text. Its width is the number of binary digits whatever the radix; a text
that denotes no unsigned number becomes the don't-care literal. -/
def sizedLiteral (radix : Radix) (text : String) : String :=
  match parseUnsigned text.toList with
  | some n =>
      String.ofList (Nat.toDigits 10 (bitWidth n) ++ '\x27' :: radix.letter ::
        Nat.toDigits radix.base n)
  | none => String.ofList ['1', '\x27', radix.letter, 'x']

end BlockVerilog
