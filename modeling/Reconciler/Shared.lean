/-!
# Shared objects

Some values are shared by reference: two of them are the same only if they are one object, whatever
they hold. A shared object is a value with a token of its identity; whoever makes objects gives each
a token of its own, and copies keep it.
-/

namespace Reconciler

/-- A value with the token of the object that holds it. -/
structure Shared (α : Type) where
  token : Nat
  value : α
deriving Repr, Inhabited

namespace Shared

variable {α : Type}

/-- Whether two references are to one object. -/
def same (x y : Shared α) : Bool := x.token == y.token

/-- References are equal when they are to one object. -/
instance : BEq (Shared α) := ⟨same⟩

/-- A new object, and the supply of tokens that is left. The supply is the next token to give. -/
def fresh (supply : Nat) (value : α) : Shared α × Nat := (⟨supply, value⟩, supply + 1)

theorem beq_iff {x y : Shared α} : (x == y) = true ↔ x.token = y.token := by
  simp [BEq.beq, same]

theorem beq_self (x : Shared α) : (x == x) = true := beq_iff.2 rfl

end Shared

end Reconciler
