/-!
# Binary64 and binary32 numbers

A `Double` is the 64 bits of an IEEE 754 binary64 number. Magnitudes are handled exactly, as natural
numbers of *units*: one unit is `2 ^ -1074`, the smallest positive magnitude, and every finite
double is a whole number of units. `nearest` rounds a quotient of units to the closest magnitude, a
half going to the even neighbour; reading numbers, and adding and scaling them, rest on it.

`==` is the comparison of IEEE 754: a NaN equals nothing, and the two zeros are equal.
-/

namespace Reconciler

/-- A binary64 number, given by its bits: sign, eleven bits of exponent, fifty-two of fraction. -/
structure Double where
  bits : UInt64
deriving Repr, Inhabited

namespace Double

/-! ## Magnitudes -/

/-- The number of fractions that share one exponent: two to the power of fifty-two. -/
def fractions : Nat := 0x10000000000000

/-- The bits of the infinite magnitude, one above the largest finite one. -/
def infinityBits : Nat := 0x7FF0000000000000

/-- The magnitude with bits `b`, in units. The fifty-two low bits are a fraction, and each step of
the exponent above one doubles the number they stand for. -/
def units (b : Nat) : Nat :=
  let k := b / fractions - 1
  (b - k * fractions) <<< k

/-- A quotient of naturals rounded to the nearest natural, a half to the even one. -/
def roundHalfEven (num den : Nat) : Nat :=
  let q := num / den
  let r := num % den
  if 2 * r < den then q
  else if 2 * r > den then q + 1
  else q + q % 2

/-- The bits of the magnitude nearest to `num / den` units, a half going to the even one. What
rounds beyond the largest finite magnitude is infinite. -/
def nearest (num den : Nat) : Nat :=
  let k := Nat.log2 (num / den) - 52
  min (k * fractions + roundHalfEven num (den <<< k)) infinityBits

/-- The number of units in one. -/
def one : Nat := 1 <<< 1074

/-! ## Signed numbers -/

/-- The bit of the sign, above the bits of the magnitude. -/
def signBit : Nat := 0x8000000000000000

/-- The number with a sign (`true` is minus) and the bits of a magnitude. -/
def ofMagnitude (negative : Bool) (b : Nat) : Double :=
  ⟨UInt64.ofNat (if negative then signBit + b else b)⟩

/-- Whether the sign is minus. -/
def isNegative (x : Double) : Bool := x.bits.toNat ≥ signBit

/-- The bits without the sign. -/
def magnitude (x : Double) : Nat := x.bits.toNat % signBit

/-- Whether the bits are those of no number. -/
def isNaN (x : Double) : Bool := x.magnitude > infinityBits

/-- Whether the number is infinite. -/
def isInfinite (x : Double) : Bool := x.magnitude == infinityBits

/-- Whether the number is one of the two zeros. -/
def isZero (x : Double) : Bool := x.magnitude == 0

/-- Equality of IEEE 754: bits agree, or both numbers are zeros; a NaN is unequal to all. -/
def eq (x y : Double) : Bool :=
  !x.isNaN && !y.isNaN && (x.bits == y.bits || (x.isZero && y.isZero))

instance : BEq Double := ⟨eq⟩

/-- The quiet NaN. -/
def nan : Double := ⟨0x7FF8000000000000⟩

/-- The number of the opposite sign. -/
def neg (x : Double) : Double := ⟨x.bits ^^^ 0x8000000000000000⟩

instance : Neg Double := ⟨neg⟩

/-- The double nearest to `num / den`, with a sign. -/
def ofRatio (negative : Bool) (num den : Nat) : Double :=
  ofMagnitude negative (nearest (num * one) den)

/-- The double nearest to an integer. -/
def ofInt (n : Int) : Double := ofRatio (n < 0) n.natAbs 1

/-- The double nearest to a natural number. -/
def ofNat (n : Nat) : Double := ofRatio false n 1

instance (n : Nat) : OfNat Double n := ⟨ofNat n⟩

/-- The magnitude `b` times a natural number, rounded. -/
def scaleBits (b n : Nat) : Nat := nearest (units b * n) 1

/-- The magnitude `b` plus a natural number, rounded. -/
def addBits (b n : Nat) : Nat := nearest (units b + n * one) 1

end Double

/-- A binary32 number, given by its bits: sign, eight bits of exponent, twenty-three of fraction. -/
structure Single where
  bits : UInt32
deriving Repr, Inhabited

namespace Single

/-- The bit of the sign, above the bits of the magnitude. -/
def signBit : Nat := 0x80000000

/-- The bits without the sign. -/
def magnitude (x : Single) : Nat := x.bits.toNat % signBit

/-- Whether the sign is minus. -/
def isNegative (x : Single) : Bool := x.bits.toNat ≥ signBit

/-- The number of fractions that share one exponent: two to the power of twenty-three. -/
def fractions : Nat := 0x800000

/-- The bits of the infinite magnitude. -/
def infinityBits : Nat := 0x7F800000

/-- Whether the bits are those of no number. -/
def isNaN (x : Single) : Bool := x.magnitude > infinityBits

/-- The magnitude with bits `b`, in units of `2 ^ -149`. -/
def units (b : Nat) : Nat :=
  let k := b / fractions - 1
  (b - k * fractions) <<< k

/-- Equality of IEEE 754. -/
def eq (x y : Single) : Bool :=
  !x.isNaN && !y.isNaN && (x.bits == y.bits || (x.magnitude == 0 && y.magnitude == 0))

instance : BEq Single := ⟨eq⟩

/-- The same number as a double. Every finite binary32 number is a binary64 number too. -/
def widen (x : Single) : Double :=
  if x.isNaN then .nan
  else if x.magnitude = infinityBits then .ofMagnitude x.isNegative Double.infinityBits
  else .ofMagnitude x.isNegative (Double.nearest (units x.magnitude <<< (1074 - 149)) 1)

end Single

end Reconciler
