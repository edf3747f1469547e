import Reconciler.Number.Double
import Reconciler.Text.Blank

/-!
# Loosely typed numbers

A number that may come as text. As a layout weight, text counts for the whole number that it starts
with, if all of it reads as a number. Two scanners decide this: `isNumeric` looks at all of the text
and takes whatever is a number, and `leadingInteger?` reads digits from the left until there are no
more. They differ in what they take for a number. Where only the first one takes text, such as a
fraction without digits before its point, there is no weight, and where the first one sees an octal
or a binary number, the second one reads the zero that it starts with.

The digits are put together in floating point, one by one from the left. Every step is rounded, so a
number with more than fifty-three bits may come out beside the double nearest to it.
-/

namespace Reconciler

/-- A number, or text that may hold one. -/
inductive LooseNumber where
  | number (x : Double)
  | text (s : String)
deriving BEq, Repr, Inhabited

namespace LooseNumber

/-- The value of a digit in a base up to sixteen. -/
def digit? (base : Nat) (c : Char) : Option Nat :=
  let n := c.toNat
  let value? :=
    if '0'.toNat ≤ n ∧ n ≤ '9'.toNat then some (n - '0'.toNat)
    else if 'a'.toNat ≤ n ∧ n ≤ 'f'.toNat then some (n - 'a'.toNat + 10)
    else if 'A'.toNat ≤ n ∧ n ≤ 'F'.toNat then some (n - 'A'.toNat + 10)
    else none
  value?.filter (· < base)

/-- Whether a character is a digit in a base. -/
def isDigit (base : Nat) (c : Char) : Bool := (digit? base c).isSome

/-- The magnitude that digits make up in floating point: for each of them the number so far is
multiplied by the base, and rounded, and the digit is added, and the sum is rounded. -/
def fold (base : Nat) (digits : List Char) : Nat :=
  (digits.filterMap (digit? base)).foldl
    (fun b d => Double.addBits (Double.scaleBits b base) d) 0

/-- Whether text is one or more digits of a base and nothing else. -/
def isInteger (base : Nat) (cs : List Char) : Bool := !cs.isEmpty && cs.all (isDigit base)

/-- The sign in front, and what follows it. -/
def sign : List Char → Bool × List Char
  | '-' :: cs => (true, cs)
  | '+' :: cs => (false, cs)
  | cs => (false, cs)

/-! ## All of the text -/

/-- The base that text announces by a zero and a letter, in either case, and what follows them. -/
def announced? : List Char → Option (Nat × List Char)
  | '0' :: c :: cs =>
    if c == 'x' || c == 'X' then some (16, cs)
    else if c == 'o' || c == 'O' then some (8, cs)
    else if c == 'b' || c == 'B' then some (2, cs)
    else none
  | _ => none

/-- Whether text is nothing, or an exponent: `e`, a sign if need be, and one or more digits. -/
def isExponent : List Char → Bool
  | [] => true
  | c :: cs => (c == 'e' || c == 'E') && isInteger 10 (sign cs).2

/-- Whether text is a decimal number: a sign if need be, digits with a point before, among or after
them if need be, and an exponent if need be. -/
def isDecimal (cs : List Char) : Bool :=
  let rest := (sign cs).2
  let whole := rest.takeWhile (isDigit 10)
  match rest.dropWhile (isDigit 10) with
  | '.' :: after =>
    let places := after.takeWhile (isDigit 10)
    !(whole.isEmpty && places.isEmpty) && isExponent (after.dropWhile (isDigit 10))
  | after => !whole.isEmpty && isExponent after

/-- The words for numbers without digits, in small letters. -/
def numberWords : List String := ["inf", "infinity", "nan"]

/-- Whether the standard reader of floating point numbers takes text: a decimal number, or one of
the words, in any letters and with a sign if need be. -/
def isFloat (cs : List Char) : Bool :=
  isDecimal cs || numberWords.contains (String.ofList ((sign cs).2.map Char.toLower))

/-- The characters that a decimal number is made of. -/
def isDecimalChar (c : Char) : Bool :=
  isDigit 10 c || c == '.' || c == 'e' || c == 'E' || c == '+' || c == '-'

/-- Whether text, without the blanks at its ends, is a single number, or nothing. An announced base
takes digits of that base and nothing else, without a sign. The one word for a number is `Infinity`,
so other texts have to be made of the characters of decimal numbers before the standard reader sees
them. -/
def isNumeric (text : List Char) : Bool :=
  let cs := Text.trim text
  if cs.isEmpty then true
  else
    match announced? cs with
    | some (base, digits) => isInteger base digits
    | none =>
      let unsigned := (sign cs).2
      unsigned == "Infinity".toList || (unsigned.all isDecimalChar && isFloat cs)

/-! ## The start of it -/

/-- The base in which the digits at the start of text are read, and where they are. -/
def radix : List Char → Nat × List Char
  | '0' :: 'x' :: cs => (16, cs)
  | '0' :: 'X' :: cs => (16, cs)
  | cs => (10, cs)

/-- The whole number at the start of text, blanks aside. What follows its digits does not matter. -/
def leadingInteger? (text : List Char) : Option Double :=
  let (negative, unsigned) := sign (text.dropWhile Text.isBlank)
  let (base, rest) := radix unsigned
  let digits := rest.takeWhile (isDigit base)
  if digits.isEmpty then none else some (.ofMagnitude negative (fold base digits))

/-- The layout weight: a number as it is, and text for the whole number it starts with if it reads
as a number. -/
def layoutWeight? : LooseNumber → Option Double
  | number x => some x
  | text s => if isNumeric s.toList then leadingInteger? s.toList else none

/-- The stacking order: a number as it is, and zero for text. -/
def zIndex : LooseNumber → Double
  | number x => x
  | text _ => 0

end LooseNumber

end Reconciler
