import Reconciler.Equality
import Reconciler.Number.Decimal
import Reconciler.Wire

/-!
# Literals and resources

Lengths, colors and amounts. Each is a literal, in one of several forms, or a resource that the peer
resolves. Primitive equality is for literals only: it never takes two resources for equal, and
literal-or-resource equality steps in for them.
-/

namespace Reconciler

/-- A length in one of the units, or a dimension resource. -/
inductive Length where
  /-- Virtual pixels, the unit of plain numbers. -/
  | vp (x : Double)
  /-- Physical pixels. -/
  | px (x : Double)
  /-- A percentage of the parent's size. -/
  | percent (x : Double)
  /-- A dimension that the peer resolves. -/
  | resource (r : Resource)
deriving BEq, Repr, Inhabited

namespace Length

instance : Coe Double Length := ⟨vp⟩

/-- A whole number of virtual pixels. -/
def ofInt (n : Int) : Length := vp (.ofInt n)

instance : HasResource Length where
  resource?
    | resource r => some r
    | _ => none

instance : PrimitiveEq Length where
  primitiveEq
    | vp x, vp y => primitiveEq x y
    | px x, px y => primitiveEq x y
    | percent x, percent y => primitiveEq x y
    | _, _ => false

/-- Virtual pixels are sent as a number, the other units as text with the unit after it. -/
instance : ToWire Length where
  toWire
    | vp x => .number x
    | px x => .text (x.text ++ "px")
    | percent x => .text (x.text ++ "%")
    | resource r => .resource r

end Length

/-- A color, or a color resource. -/
inductive Color where
  /-- Packed as alpha, red, green and blue, eight bits each. -/
  | argb (bits : UInt32)
  /-- A name, or hexadecimal text. -/
  | named (name : String)
  /-- A color that the peer resolves. -/
  | resource (r : Resource)
deriving BEq, Repr, Inhabited

namespace Color

instance : HasResource Color where
  resource?
    | resource r => some r
    | _ => none

instance : PrimitiveEq Color where
  primitiveEq
    | argb a, argb b => a == b
    | named s, named t => s == t
    | _, _ => false

/-- Inside sequences, colors compare as literals or resources. -/
instance : DeepEq Color := ⟨literalOrResourceEq⟩

instance : ToWire Color where
  toWire
    | argb a => .int a.toNat
    | named s => .text s
    | resource r => .resource r

end Color

/-- A plain number, or a numeric resource. -/
inductive Amount where
  | value (x : Double)
  /-- A number that the peer resolves. -/
  | resource (r : Resource)
deriving BEq, Repr, Inhabited

namespace Amount

instance : HasResource Amount where
  resource?
    | resource r => some r
    | value _ => none

instance : PrimitiveEq Amount where
  primitiveEq
    | value x, value y => primitiveEq x y
    | _, _ => false

instance : ToWire Amount where
  toWire
    | value x => .number x
    | resource r => .resource r

end Amount

end Reconciler
