import Reconciler.Equality
import Reconciler.Peer.Script

/-!
# Policies

How the values of one attribute are compared and brought to a peer. A policy comes in one of two
flavours. A *reference* policy takes values for unchanged when they are primitively equal, or when
an equality of its own says so. A *keyed* policy asks a predicate of its own, and takes every value
for changed when it has none. There are no slots but those with a policy: a table could be given
slots that commit in some way of their own, but nothing ever does.
-/

namespace Reconciler

/-- The two ways to compare a staged with a committed value. -/
inductive Flavour where
  | keyed
  | reference
deriving DecidableEq, Repr, Inhabited

/-- What comes of comparing a staged with a committed value. -/
inductive Verdict where
  | unchanged
  | changed
  | panicked (p : Panic)
deriving DecidableEq, Repr, Inhabited

/-- The verdict of a comparison that always comes to an end. -/
def Verdict.ofUnchanged (unchanged : Bool) : Verdict := if unchanged then .unchanged else .changed

theorem Verdict.ofUnchanged_eq_unchanged {b : Bool} :
    Verdict.ofUnchanged b = .unchanged ↔ b = true := by cases b <;> simp [ofUnchanged]

/-- How values of an attribute are compared and brought to a peer. -/
structure Policy (V : Type) where
  /-- The attribute under which a slot of this policy is kept. -/
  target : Attribute
  flavour : Flavour
  /-- Compares a staged value with the committed one. -/
  judge : V → V → Verdict
  /-- Brings a value to a node. -/
  apply : NodeHandle → V → Script
  /-- Brings the default to a node. -/
  reset : NodeHandle → Script := fun n => .single (.reset n target)

namespace Policy

variable {V : Type}

/-- A policy that writes its own attribute in one call, with the arguments that stand for a
value. -/
def writing (target : Attribute) (flavour : Flavour) (judge : V → V → Verdict)
    (args : V → List WireValue) : Policy V where
  target := target
  flavour := flavour
  judge := judge
  apply n v := .single (.apply n target (args v))

/-- A keyed policy, with a predicate that tells whether a staged value differs from a committed
one. Without one every value does. -/
def keyed (target : Attribute) (args : V → List WireValue)
    (differs : V → V → Bool := fun _ _ => true) : Policy V :=
  writing target .keyed (fun v w => .ofUnchanged (!differs v w)) args

/-- A reference policy, with an equality for values that are not primitively equal. Without one
there is none. -/
def reference [PrimitiveEq V] (target : Attribute) (args : V → List WireValue)
    (equal : V → V → Bool := fun _ _ => false) : Policy V :=
  writing target .reference (fun v w => .ofUnchanged (primitiveEq v w || equal v w)) args

/-- The verdict on a staged value. With nothing committed it is changed, and nothing is compared. -/
def verdict (p : Policy V) (v : V) : Option V → Verdict
  | none => .changed
  | some w => p.judge v w

end Policy

end Reconciler
