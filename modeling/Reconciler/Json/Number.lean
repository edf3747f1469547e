import Reconciler.Json.Basic
import Reconciler.Number.Decimal

/-!
# Numbers in JSON

The form of a number is checked, and that it is not beyond the finite doubles. Its value is never
wanted here, since nothing that is read from JSON is a number.
-/

namespace Reconciler.Json

/-- Whether a character is a decimal digit. -/
def isDigit (c : Char) : Bool := '0' ≤ c && c ≤ '9'

/-- The number that digits stand for. -/
def digitsValue (cs : List Char) : Nat := cs.foldl (fun n c => n * 10 + (c.toNat - '0'.toNat)) 0

/-- Reads one or more digits. -/
def digits : Reader (List Char)
  | [] => .error .endsEarly
  | c :: cs =>
    if isDigit c then .ok (c :: cs.takeWhile isDigit, cs.dropWhile isDigit)
    else .error .malformed

/-- Reads the digits before the point. A zero in front stands alone. -/
def wholePart : Reader (List Char)
  | '0' :: c :: cs => if isDigit c then .error .malformed else .ok (['0'], c :: cs)
  | cs => digits cs

/-- Reads the digits behind the point, if there is a point. -/
def fraction : Reader (List Char)
  | '.' :: cs => digits cs
  | cs => .ok ([], cs)

/-- Reads the exponent, if there is one. -/
def exponent : Reader Int
  | c :: cs =>
    if c == 'e' || c == 'E' then
      let (negative, rest) : Bool × List Char :=
        match cs with
        | '-' :: cs => (true, cs)
        | '+' :: cs => (false, cs)
        | cs => (false, cs)
      match digits rest with
      | .error f => .error f
      | .ok (ds, rest) => .ok (if negative then -(digitsValue ds : Int) else digitsValue ds, rest)
    else .ok (0, c :: cs)
  | [] => .ok (0, [])

/-- Whether `n * 10 ^ e` rounds to a finite double. Without its leading zeros, `n` has as many
digits as it is long, so that far from the limit the exponent alone decides. -/
def isFinite (n : Nat) (e : Int) : Bool :=
  let size : Int := (Nat.toDigits 10 n).length + e
  if n = 0 ∨ size < 300 then true
  else if size > 320 then false
  else (Decimal.mk n e).nearest != Double.infinityBits

/-- Reads a number without its sign. -/
def unsigned : Reader Unit := fun cs =>
  match wholePart cs with
  | .error f => .error f
  | .ok (whole, cs) =>
    match fraction cs with
    | .error f => .error f
    | .ok (part, cs) =>
      match exponent cs with
      | .error f => .error f
      | .ok (e, cs) =>
        if isFinite (digitsValue (whole ++ part)) (e - part.length) then .ok ((), cs)
        else .error .malformed

end Reconciler.Json
