import BlockVerilog.Number.Decimal

/-!
The shortest decimal text of a double.

`shortest` takes the coarsest decimal grid `10 ^ p` that has a point among the reals that round to
the number, and of its points the one nearest to the number.
-/

namespace BlockVerilog

/-- Which of two equally near decimals is taken. -/
inductive TieRule where
  | up
  | even
  deriving DecidableEq, Repr

namespace Shortest

/-- The reals that round to a number: between `low` and `high`, with the ends if `closed`, all in
quarters of `2 ^ -1074`. -/
structure Interval where
  low : Nat
  value : Nat
  high : Nat
  closed : Bool

/-- Half the gap to the next number on either side. Below a power of two the gap is half as wide;
a half rounds to the even mantissa, so the ends belong to it. -/
def Interval.around (mantissa exponent : Nat) : Interval :=
  let lowerGap := if mantissa = Nat.pow 2 52 ∧ exponent ≠ 0 then 1 else 2
  ⟨(4 * mantissa - lowerGap) * Nat.pow 2 exponent, 4 * mantissa * Nat.pow 2 exponent,
    (4 * mantissa + 2) * Nat.pow 2 exponent, mantissa % 2 = 0⟩

def Interval.contains (i : Interval) (x : Nat) : Bool :=
  if i.closed then i.low ≤ x && x ≤ i.high else i.low < x && x < i.high

/-- The interval on a finer scale. -/
def Interval.scale (i : Interval) (factor : Nat) : Interval :=
  ⟨i.low * factor, i.value * factor, i.high * factor, i.closed⟩

/-- The multiple of `step` that lies in the interval and is nearest to its value. -/
def Interval.nearest? (i : Interval) (tie : TieRule) (step : Nat) : Option Nat :=
  let down := i.value / step
  match i.contains (down * step), i.contains ((down + 1) * step) with
  | false, false => none
  | true, false => some down
  | false, true => some (down + 1)
  | true, true =>
      let above := 2 * (i.value % step)
      if above < step then some down
      else if step < above then some (down + 1)
      else match tie with
        | .up => some (down + 1)
        | .even => some (down + down % 2)

/-- The point of the grid `10 ^ p` that stands for the number. -/
def onGrid? (tie : TieRule) (i : Interval) (p : Int) : Option Decimal :=
  let scaled := i.scale (Nat.pow 10 (-p).toNat)
  (scaled.nearest? tie (Nat.pow 10 p.toNat * (4 * Binary64.unitsPerOne))).map (⟨·, p⟩)

/-- The exponent of the coarsest grid that can have a point next to a double. -/
def coarsest : Int := 309

/-- So many grids suffice, as the finest of them is finer than the gaps between doubles. -/
def gridCount : Nat := 660

end Shortest

/-- The shortest decimal number that rounds to the one with this mantissa and exponent. -/
def shortest (tie : TieRule) (mantissa exponent : Nat) : Decimal :=
  let interval := Shortest.Interval.around mantissa exponent
  ((List.range Shortest.gridCount).findSome? fun (i : Nat) =>
    Shortest.onGrid? tie interval (Shortest.coarsest - i)).getD ⟨0, 0⟩

end BlockVerilog
