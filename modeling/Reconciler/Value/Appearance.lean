import Reconciler.Value.Literal

/-!
# Appearance

Visibility, hover feedback, gradients, fonts and transitions. Variants are sent as the integer codes
that the native setters know.
-/

namespace Reconciler

/-- Whether a node is drawn, and whether it takes room. -/
inductive Visibility where
  | visible
  /-- Takes room and is not drawn. -/
  | hidden
  /-- Takes no room either. -/
  | none
deriving DecidableEq, Repr

namespace Visibility

instance : Inhabited Visibility := ⟨visible⟩

instance : PrimitiveEq Visibility := ⟨(· == ·)⟩

/-- The native code of a variant. -/
def code : Visibility → Int
  | visible => 0
  | hidden => 1
  | none => 2

end Visibility

/-- Feedback while a node is hovered. -/
inductive HoverEffect where
  /-- What the platform does by default. -/
  | auto
  | scale
  | highlight
  | none
deriving DecidableEq, Repr

namespace HoverEffect

instance : Inhabited HoverEffect := ⟨auto⟩

instance : PrimitiveEq HoverEffect := ⟨(· == ·)⟩

/-- The native code of a variant. -/
def code : HoverEffect → Int
  | auto => 0
  | scale => 1
  | highlight => 2
  | none => 3

end HoverEffect

/-- The direction of a gradient without an angle. -/
inductive GradientDirection where
  | left
  | top
  | right
  | bottom
  | leftTop
  | leftBottom
  | rightTop
  | rightBottom
  | none
deriving DecidableEq, Repr, Inhabited

/-- The native code of a direction. -/
def GradientDirection.code : GradientDirection → Int
  | left => 0
  | top => 1
  | right => 2
  | bottom => 3
  | leftTop => 4
  | leftBottom => 5
  | rightTop => 6
  | rightBottom => 7
  | none => 8

/-- A linear gradient. -/
structure LinearGradient where
  /-- The angle in degrees, which goes before the direction. -/
  angle : Option Double := none
  direction : Option GradientDirection := none
  /-- The colors, each with its place between zero and one. -/
  stops : List (Color × Double)
  repeating : Bool := false
deriving BEq, Repr, Inhabited

namespace LinearGradient

/-- Whether two gradients agree: angles as numbers, stops one by one. -/
def same (g h : LinearGradient) : Bool :=
  primitiveEq g.angle h.angle && g.direction == h.direction && g.repeating == h.repeating &&
    deepEq g.stops h.stops

/-- The arguments of a gradient. -/
def args (g : LinearGradient) : List WireValue :=
  [toWire g.angle, toWire (g.direction.map (·.code)),
   .list (g.stops.map fun (color, place) => .list [toWire color, .number place]),
   .bool g.repeating]

end LinearGradient

/-- The weight of a font. -/
inductive FontWeight where
  | thin
  | light
  | normal
  | medium
  | bold
  | black
deriving DecidableEq, Repr

namespace FontWeight

instance : Inhabited FontWeight := ⟨normal⟩

/-- The weight as a number from 100 to 900. -/
def value : FontWeight → Nat
  | thin => 100
  | light => 300
  | normal => 400
  | medium => 500
  | bold => 700
  | black => 900

end FontWeight

/-- The slant of a font. -/
inductive FontStyle where
  | normal
  | italic
deriving DecidableEq, Repr

namespace FontStyle

instance : Inhabited FontStyle := ⟨normal⟩

/-- The native code of a slant. -/
def code : FontStyle → Int
  | normal => 0
  | italic => 1

end FontStyle

/-- The font of a node's own text. -/
structure Font where
  size : Option Length := none
  weight : Option FontWeight := none
  /-- The families, separated by commas. -/
  family : Option String := none
  style : Option FontStyle := none
deriving BEq, Repr, Inhabited

namespace Font

/-- Whether two fonts agree, their sizes as literals or resources. -/
def same (f g : Font) : Bool :=
  literalOrResourceEq f.size g.size && f.weight == g.weight && f.family == g.family &&
    f.style == g.style

/-- The arguments of a font. -/
def args (f : Font) : List WireValue :=
  [toWire f.size, toWire (f.weight.map fun w => (w.value : Int)), toWire f.family,
   toWire (f.style.map (·.code))]

end Font

/-- The options of a transition. -/
structure TransitionOptions where
  /-- The duration in milliseconds. -/
  duration : UInt32 := 1000
  /-- The delay in milliseconds. -/
  delay : UInt32 := 0
  /-- The stacking order during the transition. -/
  zIndex : Option Int32 := none
deriving DecidableEq, Repr, Inhabited

/-- The transition of an element that pages share. -/
structure Transition where
  /-- What the pages know the element by. -/
  id : String
  options : TransitionOptions := {}
deriving DecidableEq, Repr, Inhabited

namespace Transition

/-- Whether two transitions agree in name and options. -/
def same (t u : Transition) : Bool := t.id == u.id && t.options == u.options

/-- The arguments of a transition. -/
def args (t : Transition) : List WireValue :=
  [.text t.id, .int t.options.duration.toNat, .int t.options.delay.toNat,
   toWire (t.options.zIndex.map (·.toInt))]

end Transition

/-- A reference to a transition. Objects that hold equal transitions are told apart by a number, so
two references are to one object when both the number and the transition are the same, and an object
cannot hold two transitions. -/
structure TransitionRef where
  object : Nat
  transition : Transition
deriving DecidableEq, Repr, Inhabited

/-- References are primitively equal when they are to one object. -/
instance : PrimitiveEq TransitionRef := ⟨fun r s => decide (r = s)⟩

/-- To compare references by identity first and by content then is to compare them by content, for
what one object holds agrees with itself. -/
theorem TransitionRef.primitiveEq_or_same (r s : TransitionRef) :
    (primitiveEq r s || r.transition.same s.transition) = r.transition.same s.transition := by
  by_cases h : r = s
  · subst h
    simp [Transition.same]
  · have hdiffer : primitiveEq r s = false := decide_eq_false h
    rw [hdiffer, Bool.false_or]

end Reconciler
