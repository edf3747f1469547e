import Reconciler.Slot.Basic
import Reconciler.Slot.Policy

/-!
# Descriptions of slots

A slot described on one line for whoever debugs it: its flavour, its attribute, the request that
waits and the committed value.
-/

namespace Reconciler

/-- Types whose values can be described. -/
class Describe (α : Type) where
  describe : α → String

export Describe (describe)

instance : Describe Bool := ⟨toString⟩
instance : Describe Int := ⟨toString⟩
instance : Describe Nat := ⟨toString⟩

instance {α : Type} [Describe α] : Describe (List α) :=
  ⟨fun xs => "[" ++ ", ".intercalate (xs.map describe) ++ "]"⟩

instance {α : Type} [Describe α] : Describe (Option α) where
  describe
    | none => "None"
    | some x => "Some(" ++ describe x ++ ")"

instance {V : Type} [Describe V] : Describe (Staged V) where
  describe
    | .value v => "Value(" ++ describe v ++ ")"
    | .unset => "Unset"

instance : Describe Flavour where
  describe
    | .keyed => "KeyedSlot"
    | .reference => "ReferenceSlot"

/-- The description of a slot under its policy. -/
def Slot.describe {V : Type} [Describe V] (p : Policy V) (s : Slot V) : String :=
  Describe.describe p.flavour ++ " \x7b id: " ++ p.target.title ++ ", staged: " ++
    Describe.describe s.staged ++ ", committed: " ++ Describe.describe s.committed ++ " \x7d"

end Reconciler
