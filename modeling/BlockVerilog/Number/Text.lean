import BlockVerilog.Number.Shortest

/-!
How numbers are written: `text` in generated code, `shown` in messages about documents.
-/

namespace BlockVerilog.Binary64

/-- The sign of a written number. -/
def signText (negative : Bool) : List Char :=
  if negative then ['-'] else []

/-- Fewest digits that read back, never with an exponent; of two equally near texts the larger. -/
def positional : Binary64 → List Char
  | nan => ['N', 'a', 'N']
  | infinite negative => signText negative ++ ['i', 'n', 'f']
  | finite negative mantissa exponent =>
      signText negative ++ (shortest .up mantissa exponent).positional

/-- Whole numbers below this are written as such. -/
def wholeBound : Nat := Nat.pow 10 15

/-- A number in its shortest form: whole numbers without a fractional part, and zero without
sign. -/
def text (x : Binary64) : String :=
  match x.natAbs? with
  | some n =>
      if n < wholeBound then String.ofList (signText x.isNegative ++ Nat.toDigits 10 n)
      else String.ofList x.positional
  | none => String.ofList x.positional

/-- An exponent, always with a sign. -/
def signedExponent (e : Int) : List Char :=
  (if e < 0 then '-' else '+') :: Nat.toDigits 10 e.natAbs

/-- A decimal number with a point always and with an exponent where it is large or small: from
`10 ^ 16` on and below `10 ^ -5`. -/
def withPoint (d : Decimal) : List Char :=
  let digits := Nat.toDigits 10 d.coefficient
  let point := digits.length + d.exponent
  if 0 ≤ d.exponent ∧ point ≤ 16 then d.positional ++ ['.', '0']
  else if -5 < point ∧ point ≤ 16 then d.positional
  else
    let mantissa := match digits with
      | [] => []
      | [digit] => [digit]
      | digit :: rest => digit :: '.' :: rest
    mantissa ++ 'e' :: signedExponent (point - 1)

/-- A number as messages about documents show it; of two equally near texts the even one. -/
def shown : Binary64 → String
  | nan => "NaN"
  | infinite negative => String.ofList (signText negative ++ ['i', 'n', 'f'])
  | finite negative 0 _ => String.ofList (signText negative ++ ['0', '.', '0'])
  | finite negative mantissa exponent =>
      String.ofList (signText negative ++ withPoint (shortest .even mantissa exponent))

end BlockVerilog.Binary64
