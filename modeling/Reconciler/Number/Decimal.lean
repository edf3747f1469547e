import Reconciler.Number.Double

/-!
# Decimal text of a double

The text of a finite double is the number on the coarsest decimal grid that reads back as the same
double, written in full without an exponent. Of two such numbers on one grid the closer one is
taken, and of two equally close ones the larger.

The grids are the multiples of `10 ^ e`, tried from coarse to fine. A grid holds a number that reads
back exactly if one of the double's two neighbours on it does, so only these are tried. On the grid
of `10 ^ -1074` the double itself lies, so the search ends.
-/

namespace Reconciler

/-- The number `digits * 10 ^ exponent`. -/
structure Decimal where
  digits : Nat
  exponent : Int
deriving DecidableEq, Repr, Inhabited

namespace Decimal

/-- A power of ten. -/
def ten (n : Nat) : Nat := Nat.pow 10 n

/-- The bits of the magnitude nearest to a decimal number. -/
def nearest (d : Decimal) : Nat :=
  Double.nearest (d.digits * ten d.exponent.toNat * Double.one) (ten (-d.exponent).toNat)

/-- Whether a decimal number reads back as the magnitude with bits `b`. -/
def readsAs (d : Decimal) (b : Nat) : Bool := d.nearest == b

/-- On the grid of `10 ^ e`, the number that reads back as the magnitude with bits `b` and is
closest to it, if any does. -/
def onGrid? (b : Nat) (e : Int) : Option Decimal :=
  let num := Double.units b * ten (-e).toNat
  let den := Double.one * ten e.toNat
  let below : Decimal := ⟨num / den, e⟩
  let above : Decimal := ⟨num / den + 1, e⟩
  let closerFirst := if 2 * (num % den) < den then [below, above] else [above, below]
  closerFirst.find? (·.readsAs b)

/-- The magnitude with bits `b` written out exactly, on the grid on which every double lies. -/
def exact (b : Nat) : Decimal := ⟨Double.units b * Nat.pow 5 1074, -1074⟩

/-- The decimal number of the coarsest grid that reads back as the magnitude with bits `b`. The
search starts on the grid of the power of ten just above the digits before the point: on a coarser
one, every number but zero is more than ten times too large. -/
def shortest (b : Nat) : Decimal :=
  let top := (Nat.toDigits 10 (Double.units b / Double.one)).length
  ((List.range (top + 1074)).findSome? fun (i : Nat) => onGrid? b ((top : Int) - i)).getD
    (exact b)

/-- The last `n` digits of a natural number, with leading zeros. -/
def lastDigits : Nat → Nat → List Char
  | 0, _ => []
  | n + 1, m => lastDigits n (m / 10) ++ [Nat.digitChar (m % 10)]

/-- The digits of a decimal number in full, with a point if some come after it. -/
def text (d : Decimal) : String :=
  if d.exponent < 0 then
    let places := (-d.exponent).toNat
    let whole := Nat.toDigits 10 (d.digits / ten places)
    String.ofList (whole ++ '.' :: lastDigits places (d.digits % ten places))
  else
    String.ofList (Nat.toDigits 10 (d.digits * ten d.exponent.toNat))

end Decimal

/-- The text of a double: the shortest digits that read back, in full. Negative zero keeps its sign,
and a NaN has none. -/
def Double.text (x : Double) : String :=
  if x.isNaN then "NaN"
  else
    let magnitude :=
      if x.isInfinite then "inf"
      else if x.isZero then "0"
      else (Decimal.shortest x.magnitude).text
    if x.isNegative then "-" ++ magnitude else magnitude

instance : ToString Double := ⟨Double.text⟩

end Reconciler
