import BlockVerilog.Handlers.Atom
import BlockVerilog.Number.SizedLiteral

/-!
Conversions of what a slot holds to literals with a width.
-/

namespace BlockVerilog.Handlers

/-- The value in a slot as a sized literal. -/
def sizedValue (radix : Radix) : Handler :=
  .expression fun site => do
    let number ← site.valueOr "number" .none ""
    return atom (sizedLiteral radix number)

/-- A sized literal as a statement. -/
def sizedStatement (radix : Radix) : Handler :=
  .statement fun site => do
    let number ← site.valueOr "val" .none ""
    return sizedLiteral radix number ++ ";\n"

end BlockVerilog.Handlers
