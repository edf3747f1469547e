import Reconciler.Value.Literal

/-!
# Values with sides

Insets, borders, corners, offsets and hit-test rectangles: a few optional fields, each a literal or
a resource. Every shape lists its fields in the order in which the native setter takes them, and two
values of a shape are compared field by field along that list.
-/

namespace Reconciler

/-- Whether two lists of fields agree, field by field, as literals or resources. -/
def fieldsEq {α : Type} [HasResource α] [PrimitiveEq α] (xs ys : List (Option α)) : Bool :=
  (xs.zip ys).all fun (x, y) => literalOrResourceEq x y

/-- The space on each side, inside or outside a node. -/
structure Inset where
  top : Option Length := none
  right : Option Length := none
  bottom : Option Length := none
  left : Option Length := none
deriving BEq, Repr, Inhabited

namespace Inset

/-- One length on every side. -/
def all (l : Length) : Inset := ⟨some l, some l, some l, some l⟩

/-- The sides in the order of the native setter. -/
def fields (i : Inset) : List (Option Length) := [i.top, i.right, i.bottom, i.left]

end Inset

/-- A value for each edge of a border. -/
structure Edges (α : Type) where
  left : Option α := none
  right : Option α := none
  top : Option α := none
  bottom : Option α := none
deriving BEq, Repr, Inhabited

namespace Edges

variable {α : Type}

/-- One value on every edge. -/
def all (x : α) : Edges α := ⟨some x, some x, some x, some x⟩

/-- The edges in the order of the native setter. -/
def fields (e : Edges α) : List (Option α) := [e.left, e.right, e.top, e.bottom]

end Edges

/-- A radius for each corner. -/
structure Corners where
  topLeft : Option Length := none
  topRight : Option Length := none
  bottomLeft : Option Length := none
  bottomRight : Option Length := none
deriving BEq, Repr, Inhabited

namespace Corners

/-- One radius at every corner. -/
def all (l : Length) : Corners := ⟨some l, some l, some l, some l⟩

/-- The corners in the order of the native setter. -/
def fields (c : Corners) : List (Option Length) :=
  [c.topLeft, c.topRight, c.bottomLeft, c.bottomRight]

end Corners

/-- An offset from the parent's origin. -/
structure Offset where
  x : Option Length := none
  y : Option Length := none
deriving BEq, Repr, Inhabited

/-- The axes in the order of the native setter. -/
def Offset.fields (o : Offset) : List (Option Length) := [o.x, o.y]

/-- A rectangle that accepts input, relative to its node. -/
structure Rect where
  x : Option Length := none
  y : Option Length := none
  width : Option Length := none
  height : Option Length := none
deriving BEq, Repr, Inhabited

namespace Rect

/-- The fields in the order of the native setter. -/
def fields (r : Rect) : List (Option Length) := [r.x, r.y, r.width, r.height]

/-- Whether two rectangles agree in every field. -/
def same (r s : Rect) : Bool := fieldsEq r.fields s.fields

/-- What is sent for a field without a value, so that the peer keeps a default of its own. -/
def placeholder : String := "PLACEHOLDER"

/-- The argument for one field. -/
def fieldArg : Option Length → WireValue
  | some l => toWire l
  | none => .text placeholder

/-- The four arguments for a rectangle. -/
def args (r : Rect) : List WireValue := r.fields.map fieldArg

end Rect

/-- The rectangles of a response region, compared one by one. -/
def Rect.sameAll (rs ss : List Rect) : Bool :=
  rs.length == ss.length && (rs.zip ss).all fun (r, s) => r.same s

end Reconciler
