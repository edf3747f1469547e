import Reconciler.Standard
import Reconciler.Table.Commit

/-!
# Components

A component is a native node together with its attribute slots. Setting an attribute only stages a
request; nothing reaches the native side until the component is committed. An *edit* is one such
call, so that bursts of them can be kept as lists and played.
-/

namespace Reconciler

/-- A native node together with its attribute slots. -/
structure Component where
  node : NodeHandle
  slots : Table Standard.Kind := ∅

/-- A change to one attribute of a component. -/
inductive Edit where
  /-- Asks for a value. -/
  | set (a : Attribute) (input : Standard.Input a)
  /-- Asks for the default. -/
  | unset (a : Attribute)

namespace Edit

/-- The attribute that an edit is about. -/
def target : Edit → Attribute
  | set a _ => a
  | unset a => a

/-- The value that an edit asks for, or nothing when it asks for the default. -/
def value? : (e : Edit) → Option (Standard.Value e.target)
  | set a input => Standard.normalize a input
  | unset _ => none

end Edit

namespace Component

/-- Stages what an edit asks for, in a slot of the kind that the edit names. -/
def edit (c : Component) : Edit → Component
  | .set a input =>
    { c with slots := c.slots.stage (Standard.setKind a) (Standard.normalize a input) }
  | .unset a => { c with slots := c.slots.stage (Standard.unsetKind a) none }

theorem node_edit (c : Component) (e : Edit) : (c.edit e).node = c.node := by cases e <;> rfl

/-- Setting an attribute and unsetting it stage the same kind of slot, so an edit is told by its
attribute and by what it asks for. -/
theorem slots_edit (c : Component) (e : Edit) :
    (c.edit e).slots = c.slots.stage (Standard.setKind e.target) e.value? := by
  cases e with
  | set a input => rfl
  | unset a =>
    show c.slots.stage (Standard.unsetKind a) none = c.slots.stage (Standard.setKind a) none
    rw [Standard.unsetKind_eq]

/-- Stages what a burst of edits asks for, one after the other. -/
def editAll (c : Component) (es : List Edit) : Component := es.foldl edit c

/-- Asks for a value of an attribute. -/
def set (c : Component) (a : Attribute) (input : Standard.Input a) : Component :=
  c.edit (.set a input)

/-- Asks for the default of an attribute. -/
def unset (c : Component) (a : Attribute) : Component := c.edit (.unset a)

/-- The slot of an attribute. -/
def slot? (c : Component) (a : Attribute) : Option (Slot (Standard.Value a)) :=
  c.slots.slot? (Standard.setKind a)

/-- Brings every staged request to the peer: the report, the component, and the peer afterwards. -/
def commit {π : Type} [Peer π] (c : Component) (peer : π) : Report × Component × π :=
  let (report, slots, peer) := c.slots.commit c.node peer
  (report, { c with slots := slots }, peer)

end Component

end Reconciler
