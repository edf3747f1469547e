import Reconciler.Equality

/-!
# Nested sequences

A sequence whose elements are single values or sequences again, to any depth. Deep equality compares
the values by primitive equality and never takes a value for a sequence. `shape` forgets the values
and `leaves` forgets the nesting; together they tell everything.
-/

namespace Reconciler

/-- A single value, or a sequence of nested ones. -/
inductive Nested (α : Type) where
  | item (x : α)
  | seq (xs : List (Nested α))
deriving Repr, Inhabited

namespace Nested

variable {α : Type}

mutual
/-- Whether two nested sequences have equal values, as `e` compares them, at equal places. -/
def equalBy (e : α → α → Bool) : Nested α → Nested α → Bool
  | item x, item y => e x y
  | seq xs, seq ys => equalAllBy e xs ys
  | _, _ => false

/-- Whether two lists of nested sequences are equal element by element. -/
def equalAllBy (e : α → α → Bool) : List (Nested α) → List (Nested α) → Bool
  | [], [] => true
  | x :: xs, y :: ys => equalBy e x y && equalAllBy e xs ys
  | _, _ => false
end

mutual
/-- The nesting alone, with nothing at the places of the values. -/
def shape : Nested α → Nested Unit
  | item _ => item ()
  | seq xs => seq (shapes xs)

/-- The nesting of every element. -/
def shapes : List (Nested α) → List (Nested Unit)
  | [] => []
  | x :: xs => shape x :: shapes xs
end

mutual
/-- The values from left to right, without the nesting. -/
def leaves : Nested α → List α
  | item x => [x]
  | seq xs => leavesAll xs

/-- The values of every element, from left to right. -/
def leavesAll : List (Nested α) → List α
  | [] => []
  | x :: xs => leaves x ++ leavesAll xs
end

instance [BEq α] : BEq (Nested α) := ⟨equalBy (· == ·)⟩

instance [PrimitiveEq α] : DeepEq (Nested α) := ⟨equalBy primitiveEq⟩

/-- Comparing two lists element by element is deep equality of sequences. -/
theorem equalAllBy_eq_deepSequenceEq [PrimitiveEq α] (xs ys : List (Nested α)) :
    equalAllBy primitiveEq xs ys = deepSequenceEq xs ys := by
  induction xs generalizing ys with
  | nil => cases ys <;> rfl
  | cons x xs ih =>
    cases ys with
    | nil => rfl
    | cons y ys =>
      rw [deepSequenceEq_cons, ← ih]
      rfl

end Nested

end Reconciler
