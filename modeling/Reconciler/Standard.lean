import Reconciler.Table.Basic
import Reconciler.Value.Appearance
import Reconciler.Value.LooseNumber
import Reconciler.Value.Matrix
import Reconciler.Value.Sides

/-!
# The standard catalog

A *modifier* binds an attribute to the type of its values, to the arguments that stand for a value,
and to a comparison. It is *keyed* or *by reference*: a keyed one brings a predicate of its own, and
one by reference takes values for unchanged when they are primitively equal, or when an equality of
its own says so. Every modifier writes its own attribute in a single call.

A slot is of the *kind* of its modifier. Setting an attribute and unsetting it each stage a slot of
some kind, and name it on their own: `Standard.setKind` and `Standard.unsetKind` are two lists, and
nothing in a table makes them agree. That they do is a theorem (`Standard.unsetKind_eq`), and so is
that both name a modifier of the attribute itself (`Standard.target_setKind`).
-/

namespace Reconciler.Standard

/-! ## Keyed modifiers -/

/-- The modifiers that are compared by a predicate of their own. -/
inductive KeyedModifier where
  | width
  | height
  | layoutWeight
  | padding
  | margin
  | backgroundColor
  | opacity
  | borderWidth
  | borderColor
  | borderRadius
  | position
  | zIndex
  | visibility
  | transform
  | linearGradient
  | font
  | responseRegion
  | touchable
  | focusable
deriving DecidableEq, Repr

namespace KeyedModifier

/-- The attribute of a modifier. -/
def target : KeyedModifier → Attribute
  | width => .width
  | height => .height
  | layoutWeight => .layoutWeight
  | padding => .padding
  | margin => .margin
  | backgroundColor => .backgroundColor
  | opacity => .opacity
  | borderWidth => .borderWidth
  | borderColor => .borderColor
  | borderRadius => .borderRadius
  | position => .position
  | zIndex => .zIndex
  | visibility => .visibility
  | transform => .transform
  | linearGradient => .linearGradient
  | font => .font
  | responseRegion => .responseRegion
  | touchable => .touchable
  | focusable => .focusable

/-- The type of a modifier's values. -/
def Value : KeyedModifier → Type
  | width => Length
  | height => Length
  | layoutWeight => Double
  | padding => Inset
  | margin => Inset
  | backgroundColor => Color
  | opacity => Amount
  | borderWidth => Edges Length
  | borderColor => Edges Color
  | borderRadius => Corners
  | position => Offset
  | zIndex => Double
  | visibility => Visibility
  | transform => Matrix
  | linearGradient => LinearGradient
  | font => Font
  | responseRegion => List Rect
  | touchable => Bool
  | focusable => Bool

/-- Whether a staged value says the same as the committed one. -/
def same : (m : KeyedModifier) → m.Value → m.Value → Bool
  | width => fun (v w : Length) => literalOrResourceEq v w
  | height => fun (v w : Length) => literalOrResourceEq v w
  | layoutWeight => fun (v w : Double) => primitiveEq v w
  | padding => fun (v w : Inset) => fieldsEq v.fields w.fields
  | margin => fun (v w : Inset) => fieldsEq v.fields w.fields
  | backgroundColor => fun (v w : Color) => literalOrResourceEq v w
  | opacity => fun (v w : Amount) => literalOrResourceEq v w
  | borderWidth => fun (v w : Edges Length) => fieldsEq v.fields w.fields
  | borderColor => fun (v w : Edges Color) => fieldsEq v.fields w.fields
  | borderRadius => fun (v w : Corners) => fieldsEq v.fields w.fields
  | position => fun (v w : Offset) => fieldsEq v.fields w.fields
  | zIndex => fun (v w : Double) => primitiveEq v w
  | visibility => fun (v w : Visibility) => primitiveEq v w
  | transform => fun (v w : Matrix) => deepEq v w
  | linearGradient => fun (v w : LinearGradient) => v.same w
  | font => fun (v w : Font) => v.same w
  | responseRegion => fun (v w : List Rect) => Rect.sameAll v w
  | touchable => fun (v w : Bool) => primitiveEq v w
  | focusable => fun (v w : Bool) => primitiveEq v w

/-- The arguments that stand for a value. No list is so long that its length would not fit into the
sixty-four bits of a whole number, so the length is sent as it is. -/
def args : (m : KeyedModifier) → m.Value → List WireValue
  | width => fun (v : Length) => [toWire v]
  | height => fun (v : Length) => [toWire v]
  | layoutWeight => fun (v : Double) => [.number v]
  | padding => fun (v : Inset) => v.fields.map toWire
  | margin => fun (v : Inset) => v.fields.map toWire
  | backgroundColor => fun (v : Color) => [toWire v]
  | opacity => fun (v : Amount) => [toWire v]
  | borderWidth => fun (v : Edges Length) => v.fields.map toWire
  | borderColor => fun (v : Edges Color) => v.fields.map toWire
  | borderRadius => fun (v : Corners) => v.fields.map toWire
  | position => fun (v : Offset) => v.fields.map toWire
  | zIndex => fun (v : Double) => [.number v]
  | visibility => fun (v : Visibility) => [.int v.code]
  | transform => fun (v : Matrix) => [toWire v]
  | linearGradient => fun (v : LinearGradient) => v.args
  | font => fun (v : Font) => v.args
  | responseRegion => fun (v : List Rect) =>
    let flat := v.flatMap Rect.args
    [.list flat, .int flat.length]
  | touchable => fun (v : Bool) => [.bool v]
  | focusable => fun (v : Bool) => [.bool v]

/-- The policy of a modifier. -/
def policy (m : KeyedModifier) : Policy m.Value := .keyed m.target m.args fun v w => !m.same v w

end KeyedModifier

/-! ## Modifiers by reference -/

/-- The modifiers that are compared by primitive equality. -/
inductive ReferenceModifier where
  | hoverEffect
  | sharedTransition
deriving DecidableEq, Repr

namespace ReferenceModifier

/-- The attribute of a modifier. -/
def target : ReferenceModifier → Attribute
  | hoverEffect => .hoverEffect
  | sharedTransition => .sharedTransition

/-- The type of a modifier's values. -/
def Value : ReferenceModifier → Type
  | hoverEffect => HoverEffect
  | sharedTransition => TransitionRef

instance : (m : ReferenceModifier) → PrimitiveEq m.Value
  | hoverEffect => inferInstanceAs (PrimitiveEq HoverEffect)
  | sharedTransition => inferInstanceAs (PrimitiveEq TransitionRef)

/-- The equality for values that are not primitively equal. -/
def equal : (m : ReferenceModifier) → m.Value → m.Value → Bool
  | hoverEffect => fun _ _ => false
  | sharedTransition => fun (v w : TransitionRef) => v.transition.same w.transition

/-- The arguments that stand for a value. -/
def args : (m : ReferenceModifier) → m.Value → List WireValue
  | hoverEffect => fun (v : HoverEffect) => [.int v.code]
  | sharedTransition => fun (v : TransitionRef) => v.transition.args

/-- The policy of a modifier. -/
def policy (m : ReferenceModifier) : Policy m.Value := .reference m.target m.args m.equal

end ReferenceModifier

/-! ## Kinds of slots -/

/-- The kinds of standard slots. -/
inductive Kind where
  | keyed (m : KeyedModifier)
  | reference (m : ReferenceModifier)
deriving DecidableEq, Repr

namespace Kind

/-- The type of the values in a slot of a kind. -/
def Value : Kind → Type
  | keyed m => m.Value
  | reference m => m.Value

/-- The policy of a slot of a kind. -/
def policy : (k : Kind) → Policy k.Value
  | keyed m => m.policy
  | reference m => m.policy

/-- The arguments that stand for a value. -/
def args : (k : Kind) → k.Value → List WireValue
  | keyed m => m.args
  | reference m => m.args

/-- Whether a staged value is taken for unchanged over the committed one. -/
def unchanged : (k : Kind) → k.Value → k.Value → Bool
  | keyed m => m.same
  | reference m => fun (v w : m.Value) => primitiveEq v w || m.equal v w

end Kind

instance : Catalog Kind := ⟨Kind.Value, Kind.policy⟩

/-- The comparison of a standard slot always comes to an end, with what is taken for unchanged. -/
theorem Kind.judge_policy (k : Kind) (v w : Catalog.Value k) :
    (Catalog.policy k).judge v w = .ofUnchanged (k.unchanged v w) := by
  rcases k with m | m
  · exact congrArg Verdict.ofUnchanged (Bool.not_not (m.same v w))
  · rfl

theorem Kind.verdict_eq_unchanged_iff (k : Kind) {v w : Catalog.Value k} :
    (Catalog.policy k).verdict v (some w) = .unchanged ↔ k.unchanged v w = true := by
  rw [Policy.verdict, k.judge_policy, Verdict.ofUnchanged_eq_unchanged]

/-- The kind of slot that setting an attribute stages. -/
def setKind : Attribute → Kind
  | .width => .keyed .width
  | .height => .keyed .height
  | .layoutWeight => .keyed .layoutWeight
  | .padding => .keyed .padding
  | .margin => .keyed .margin
  | .backgroundColor => .keyed .backgroundColor
  | .opacity => .keyed .opacity
  | .borderWidth => .keyed .borderWidth
  | .borderColor => .keyed .borderColor
  | .borderRadius => .keyed .borderRadius
  | .position => .keyed .position
  | .zIndex => .keyed .zIndex
  | .visibility => .keyed .visibility
  | .transform => .keyed .transform
  | .linearGradient => .keyed .linearGradient
  | .font => .keyed .font
  | .responseRegion => .keyed .responseRegion
  | .touchable => .keyed .touchable
  | .focusable => .keyed .focusable
  | .hoverEffect => .reference .hoverEffect
  | .sharedTransition => .reference .sharedTransition

/-- The kind of slot that unsetting an attribute stages. -/
def unsetKind : Attribute → Kind
  | .width => .keyed .width
  | .height => .keyed .height
  | .layoutWeight => .keyed .layoutWeight
  | .padding => .keyed .padding
  | .margin => .keyed .margin
  | .backgroundColor => .keyed .backgroundColor
  | .opacity => .keyed .opacity
  | .borderWidth => .keyed .borderWidth
  | .borderColor => .keyed .borderColor
  | .borderRadius => .keyed .borderRadius
  | .position => .keyed .position
  | .zIndex => .keyed .zIndex
  | .visibility => .keyed .visibility
  | .transform => .keyed .transform
  | .linearGradient => .keyed .linearGradient
  | .font => .keyed .font
  | .responseRegion => .keyed .responseRegion
  | .touchable => .keyed .touchable
  | .focusable => .keyed .focusable
  | .hoverEffect => .reference .hoverEffect
  | .sharedTransition => .reference .sharedTransition

/-- To set an attribute and to unset it stage slots of one kind. -/
theorem unsetKind_eq (a : Attribute) : unsetKind a = setKind a := by cases a <;> rfl

/-- The kind of slot that setting an attribute stages is kept under this attribute. -/
@[simp] theorem target_setKind (a : Attribute) : (Catalog.policy (setKind a)).target = a := by
  cases a <;> rfl

/-- There is one kind of slot for each attribute. -/
theorem setKind_target (k : Kind) : setKind (Catalog.policy k).target = k := by
  rcases k with m | m <;> cases m <;> rfl

/-- A slot of the kind that setting an attribute stages is kept under this attribute. -/
theorem target_of_kind_eq {e : Entry Kind} {a : Attribute} (h : e.kind = setKind a) :
    e.target = a := by
  rw [Entry.target, Entry.policy, h, target_setKind]

/-! ## Attributes -/

/-- The type of an attribute's values. -/
abbrev Value (a : Attribute) : Type := Catalog.Value (setKind a)

/-- The policy of an attribute's slot. -/
abbrev policy (a : Attribute) : Policy (Value a) := Catalog.policy (setKind a)

/-- The arguments that stand for a value. -/
def args (a : Attribute) : Value a → List WireValue := (setKind a).args

/-- Whether a staged value is taken for unchanged over the committed one. -/
def unchanged (a : Attribute) : Value a → Value a → Bool := (setKind a).unchanged

theorem verdict_eq_unchanged_iff {a : Attribute} {v w : Value a} :
    (policy a).verdict v (some w) = .unchanged ↔ unchanged a v w = true :=
  (setKind a).verdict_eq_unchanged_iff

theorem unchanged_hoverEffect :
    unchanged .hoverEffect = fun (v w : HoverEffect) => primitiveEq v w := by
  funext v w
  exact Bool.or_false _

/-- References to transitions are compared by what they hold, whichever objects they are to. -/
theorem unchanged_sharedTransition :
    unchanged .sharedTransition =
      fun (v w : TransitionRef) => v.transition.same w.transition := by
  funext v w
  exact TransitionRef.primitiveEq_or_same v w

/-- What may be asked for when an attribute is set: a value, save that the two numbers may come as
text and the two flags may be left open. -/
def Input : Attribute → Type
  | .layoutWeight => LooseNumber
  | .zIndex => LooseNumber
  | .touchable => Option Bool
  | .focusable => Option Bool
  | a => Value a

/-- The value that an input asks for, or nothing when it asks for the default. -/
def normalize : (a : Attribute) → Input a → Option (Value a)
  | .layoutWeight => fun (v : LooseNumber) => v.layoutWeight?
  | .zIndex => fun (v : LooseNumber) => some v.zIndex
  | .touchable => fun (v : Option Bool) => v
  | .focusable => fun (v : Option Bool) => v
  | .width => fun (v : Length) => some v
  | .height => fun (v : Length) => some v
  | .padding => fun (v : Inset) => some v
  | .margin => fun (v : Inset) => some v
  | .backgroundColor => fun (v : Color) => some v
  | .opacity => fun (v : Amount) => some v
  | .borderWidth => fun (v : Edges Length) => some v
  | .borderColor => fun (v : Edges Color) => some v
  | .borderRadius => fun (v : Corners) => some v
  | .position => fun (v : Offset) => some v
  | .visibility => fun (v : Visibility) => some v
  | .transform => fun (v : Matrix) => some v
  | .linearGradient => fun (v : LinearGradient) => some v
  | .font => fun (v : Font) => some v
  | .responseRegion => fun (v : List Rect) => some v
  | .hoverEffect => fun (v : HoverEffect) => some v
  | .sharedTransition => fun (v : TransitionRef) => some v

end Reconciler.Standard
