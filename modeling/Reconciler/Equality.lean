import Reconciler.Resource

/-!
# Equality of attribute values

Three ways to compare, from which the comparison of every attribute is put together.

* *Primitive* equality: scalars by value, shared objects by identity.
* *Literal or resource*: two resources by their descriptors, two literals by primitive equality, and
  never a resource with a literal.
* *Deep* equality: sequences of one length whose elements are pairwise deeply equal.
-/

namespace Reconciler

/-- Types with primitive equality: by value for scalars, by identity for shared objects. -/
class PrimitiveEq (α : Type) where
  primitiveEq : α → α → Bool

export PrimitiveEq (primitiveEq)

instance : PrimitiveEq Bool := ⟨(· == ·)⟩
instance : PrimitiveEq Char := ⟨(· == ·)⟩
instance : PrimitiveEq Int := ⟨(· == ·)⟩
instance : PrimitiveEq Double := ⟨(· == ·)⟩
instance : PrimitiveEq Single := ⟨(· == ·)⟩
instance : PrimitiveEq String := ⟨(· == ·)⟩
instance {α : Type} : PrimitiveEq (Shared α) := ⟨Shared.same⟩

/-- Optional values are equal when both are absent, or both are present and equal. -/
instance {α : Type} [PrimitiveEq α] : PrimitiveEq (Option α) where
  primitiveEq
    | some x, some y => primitiveEq x y
    | none, none => true
    | _, _ => false

/-- Literal-or-resource equality: resources by descriptor, literals by primitive equality, and never
a resource with a literal. -/
def literalOrResourceEq {α : Type} [HasResource α] [PrimitiveEq α] (x y : α) : Bool :=
  match resource? x, resource? y with
  | some r, some s => r.same s
  | none, none => primitiveEq x y
  | _, _ => false

/-- Types with deep equality, which goes through sequences. -/
class DeepEq (α : Type) where
  deepEq : α → α → Bool

export DeepEq (deepEq)

/-- Two sequences are deeply equal when they have one length and their elements are pairwise so. -/
def deepSequenceEq {α : Type} [DeepEq α] (xs ys : List α) : Bool :=
  xs.length == ys.length && (xs.zip ys).all fun (x, y) => deepEq x y

instance : DeepEq Bool := ⟨primitiveEq⟩
instance : DeepEq Char := ⟨primitiveEq⟩
instance : DeepEq Int := ⟨primitiveEq⟩
instance : DeepEq Double := ⟨primitiveEq⟩
instance : DeepEq Single := ⟨primitiveEq⟩
instance : DeepEq String := ⟨primitiveEq⟩
instance {α : Type} [DeepEq α] : DeepEq (List α) := ⟨deepSequenceEq⟩

instance {α : Type} {n : Nat} [DeepEq α] : DeepEq (Vector α n) :=
  ⟨fun x y => deepSequenceEq x.toList y.toList⟩

/-- Optional values are deeply equal when both are absent, or both are present and deeply equal. -/
instance {α : Type} [DeepEq α] : DeepEq (Option α) where
  deepEq
    | some x, some y => deepEq x y
    | none, none => true
    | _, _ => false

instance {α β : Type} [DeepEq α] [DeepEq β] : DeepEq (α × β) :=
  ⟨fun x y => deepEq x.1 y.1 && deepEq x.2 y.2⟩

@[simp] theorem deepSequenceEq_cons {α : Type} [DeepEq α] (x y : α) (xs ys : List α) :
    deepSequenceEq (x :: xs) (y :: ys) = (deepEq x y && deepSequenceEq xs ys) := by
  simp [deepSequenceEq, Bool.and_left_comm]

end Reconciler
