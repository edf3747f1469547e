/-!
# Attributes

The twenty-one attributes that a native node can carry. Every attribute has one stable name, used in
messages and by peers, and one place in the fixed order in which tables are walked and lists of
attributes are given.
-/

namespace Reconciler

/-- An attribute of a native node. The order of the constructors is the order of every table. -/
inductive Attribute where
  /-- Layout width. -/
  | width
  /-- Layout height. -/
  | height
  /-- Share of the space that remains along the parent's main axis. -/
  | layoutWeight
  /-- Inner spacing on the four sides. -/
  | padding
  /-- Outer spacing on the four sides. -/
  | margin
  /-- Fill color behind the content. -/
  | backgroundColor
  /-- Opacity of the node. -/
  | opacity
  /-- Width of the border's stroke. -/
  | borderWidth
  /-- Color of the border's stroke. -/
  | borderColor
  /-- Radii of the corners. -/
  | borderRadius
  /-- Offset from the parent's origin. -/
  | position
  /-- Stacking order among siblings. -/
  | zIndex
  /-- Whether the node takes part in layout and drawing. -/
  | visibility
  /-- Transform matrix. -/
  | transform
  /-- Linear gradient fill. -/
  | linearGradient
  /-- Font of the node's own text. -/
  | font
  /-- Regions that accept touch input. -/
  | responseRegion
  /-- Whether the node receives touch input. -/
  | touchable
  /-- Whether the node can take focus. -/
  | focusable
  /-- Feedback while hovered. -/
  | hoverEffect
  /-- Transition of an element shared between pages. -/
  | sharedTransition
deriving DecidableEq, Repr, Inhabited

namespace Attribute

/-- Every attribute, once, in table order. -/
def all : List Attribute :=
  [.width, .height, .layoutWeight, .padding, .margin, .backgroundColor, .opacity, .borderWidth,
   .borderColor, .borderRadius, .position, .zIndex, .visibility, .transform, .linearGradient, .font,
   .responseRegion, .touchable, .focusable, .hoverEffect, .sharedTransition]

/-- The place of an attribute in table order, counted from zero. -/
def index (a : Attribute) : Nat := a.ctorIdx

theorem index_lt (a : Attribute) : a.index < 21 := by cases a <;> decide

theorem mem_all (a : Attribute) : a ∈ all := by cases a <;> decide

theorem nodup_all : all.Nodup := by decide

theorem getElem?_all_index (a : Attribute) : all[a.index]? = some a := by cases a <;> rfl

/-- No two attributes share a place. -/
theorem index_inj {a b : Attribute} (h : a.index = b.index) : a = b := by
  have ha := getElem?_all_index a
  rw [h, getElem?_all_index b] at ha
  exact (Option.some.inj ha).symm

/-- Attributes compare by their places. -/
def compare (a b : Attribute) : Ordering := Ord.compare a.index b.index

/-- The order of attributes is the order of their places. -/
instance : LT Attribute := ⟨fun a b => a.index < b.index⟩

instance (a b : Attribute) : Decidable (a < b) := inferInstanceAs (Decidable (a.index < b.index))

/-- The list of all attributes is strictly increasing. -/
theorem sorted_all : all.Pairwise (· < ·) := by decide

/-- The stable name of an attribute, in camel case. -/
def name : Attribute → String
  | width => "width"
  | height => "height"
  | layoutWeight => "layoutWeight"
  | padding => "padding"
  | margin => "margin"
  | backgroundColor => "backgroundColor"
  | opacity => "opacity"
  | borderWidth => "borderWidth"
  | borderColor => "borderColor"
  | borderRadius => "borderRadius"
  | position => "position"
  | zIndex => "zIndex"
  | visibility => "visibility"
  | transform => "transform"
  | linearGradient => "linearGradient"
  | font => "font"
  | responseRegion => "responseRegion"
  | touchable => "touchable"
  | focusable => "focusable"
  | hoverEffect => "hoverEffect"
  | sharedTransition => "sharedTransition"

instance : ToString Attribute := ⟨name⟩

/-- The name with its first letter in upper case, as descriptions of slots show it. -/
def title (a : Attribute) : String := a.name.capitalize

/-- The attribute of a given name. -/
def ofName? (s : String) : Option Attribute := all.find? (·.name == s)

/-- Every attribute is found under its name. -/
theorem ofName?_name (a : Attribute) : ofName? a.name = some a := by cases a <;> decide

end Attribute

end Reconciler
