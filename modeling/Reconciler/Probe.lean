import Reconciler.Nested
import Reconciler.Table.Basic
import Reconciler.Value.Literal

/-!
# Probes

A second catalog, whose kinds try what the standard ones never do: they take the attribute of
another kind, panic when they compare, always find a change, compare by identity, or fail without a
call. A table over both catalogs shows that a pass copes with all of it.
-/

namespace Reconciler

/-- A kind of slot for trying a pass. -/
inductive Probe where
  /-- A background color, kept beside the standard one. -/
  | tint
  /-- A number in the place of the background color. -/
  | conflict
  /-- A list that has always changed. -/
  | always
  /-- A number whose comparison may panic. -/
  | panicky
  /-- A shared list, compared by identity alone. -/
  | region
  /-- A shared list, compared by identity or length. -/
  | sameLength
  /-- A number compared by value. -/
  | hover
  /-- A floating point number compared by value. -/
  | scalar
  /-- Nested lists, compared deeply. -/
  | tree
  /-- Text that may fail to be applied. -/
  | fallible
deriving DecidableEq, Repr, Inhabited

namespace Probe

/-- The type of a probe's values. -/
def Value : Probe → Type
  | tint => Color
  | conflict => Int
  | always => List Nat
  | panicky => Nat
  | region => Shared (List Double)
  | sameLength => Shared (List Double)
  | hover => Int
  | scalar => Double
  | tree => List (Nested Double)
  | fallible => String

/-- The comparison that may panic: the staged number says what happens. -/
def judgePanicky (staged committed : Nat) : Verdict :=
  match staged with
  | 0 => .unchanged
  | 1 => .panicked (.text "diff predicate exploded")
  | 2 => .panicked (.text ("diff predicate exploded on 2 after " ++ toString committed))
  | 3 => .panicked .mute
  | _ => .changed

/-- Applies text, unless it starts with an exclamation mark: it fails then, and makes no call. -/
def applyFallible (n : NodeHandle) (s : String) : Script :=
  match s.toList with
  | '!' :: rest =>
    let reason := String.ofList rest
    .fail (if reason = "unknown" then .unknownNode n else .other reason)
  | _ => .single (.apply n .font [.text s])

/-- The policy of a probe. -/
def policy : (p : Probe) → Policy (Value p)
  | tint =>
    .keyed .backgroundColor (fun (v : Color) => [toWire v])
      fun (v w : Color) => !literalOrResourceEq v w
  | conflict => Policy.reference (V := Int) .backgroundColor fun v => [toWire v]
  | always => .keyed .layoutWeight fun (v : List Nat) => [.int v.length]
  | panicky => .writing .opacity .keyed judgePanicky fun (v : Nat) => [.int v]
  | region =>
    Policy.reference (V := Shared (List Double)) .responseRegion fun v => v.value.map toWire
  | sameLength =>
    Policy.reference (V := Shared (List Double)) .sharedTransition
      (fun v => [.list (v.value.map toWire)])
      fun (v w : Shared (List Double)) => v.value.length == w.value.length
  | hover => Policy.reference (V := Int) .hoverEffect fun v => [toWire v]
  | scalar => Policy.reference (V := Double) .zIndex fun v => [toWire v]
  | tree =>
    .keyed .transform (fun (v : List (Nested Double)) => [.int v.length])
      fun (v w : List (Nested Double)) => !deepSequenceEq v w
  | fallible =>
    { target := .font
      flavour := .keyed
      judge := fun (v w : String) => .ofUnchanged (v == w)
      apply := applyFallible
      reset := fun n => .single (.apply n .font [.undefined]) }

instance : Catalog Probe := ⟨Value, policy⟩

end Probe

end Reconciler
