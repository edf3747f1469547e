import Reconciler.Nested
import Reconciler.Proofs.Comparison

/-!
# Deep equality of nested sequences

Two lists of nested sequences are deeply equal when their nesting is the same and their values, read
from left to right, are equal one by one (`Nested.equalAllBy_iff`). Neither is enough alone: the
values say nothing of the nesting, and a sequence without values still has a depth.

Both directions are by recursion over a nested value and a list of them at once. The values of a
list can be cut into those of its first element and the rest because the nesting tells how many
there are (`Nested.length_leaves`).
-/

namespace Reconciler.Nested

variable {α β : Type}

/-! ## How many values there are -/

mutual
/-- As many values as the nesting has places for. -/
theorem length_leaves : ∀ x : Nested α, x.leaves.length = x.shape.leaves.length
  | item _ => rfl
  | seq xs => length_leavesAll xs

theorem length_leavesAll : ∀ xs : List (Nested α),
    (leavesAll xs).length = (leavesAll (shapes xs)).length
  | [] => rfl
  | x :: xs => by
    rw [leavesAll, shapes, leavesAll, List.length_append, List.length_append, length_leaves x,
      length_leavesAll xs]
end

/-- Two lists are related when both are cut at one place and the parts are. -/
theorem forall₂_append_iff {R : α → β → Prop} {xs xs' : List α} {ys ys' : List β}
    (h : xs.length = ys.length) :
    List.Forall₂ R (xs ++ xs') (ys ++ ys') ↔ List.Forall₂ R xs ys ∧ List.Forall₂ R xs' ys' := by
  induction xs generalizing ys with
  | nil =>
    obtain rfl : ys = [] := List.length_eq_zero_iff.1 h.symm
    simp
  | cons x xs ih =>
    cases ys with
    | nil => cases h
    | cons y ys => simp [ih (Nat.succ.inj h), and_assoc]

/-! ## The same values, nested otherwise -/

/-- A list of nested values is not an element of itself. -/
theorem ne_singleton_seq (xs : List (Nested α)) : xs ≠ [seq xs] := by
  intro h
  have hsize := congrArg sizeOf h
  simp only [List.cons.sizeOf_spec, List.nil.sizeOf_spec, seq.sizeOf_spec] at hsize
  omega

/-- A sequence without values, inside `n` others. -/
def hollow (α : Type) : Nat → Nested α
  | 0 => seq []
  | n + 1 => seq [hollow α n]

theorem leaves_hollow (n : Nat) : (hollow α n).leaves = [] := by
  induction n with
  | zero => rfl
  | succ n ih => simp [hollow, leaves, leavesAll, ih]

/-- The nesting of a sequence without values tells its depth. -/
theorem shape_hollow_inj {m n : Nat} : (hollow α m).shape = (hollow α n).shape ↔ m = n := by
  induction m generalizing n with
  | zero => cases n <;> simp [hollow, shape, shapes]
  | succ m ih => cases n <;> simp [hollow, shape, shapes, ih]

/-! ## Nesting and values -/

section Compared

variable (e : α → α → Bool)

mutual
/-- Two nested values are equal when their nesting is, and their values are equal one by one. -/
theorem equalBy_iff : ∀ x y : Nested α, equalBy e x y = true ↔
    x.shape = y.shape ∧ List.Forall₂ (fun a b => e a b = true) x.leaves y.leaves
  | item a, item b => by simp [equalBy, shape, leaves]
  | item a, seq ys => by simp [equalBy, shape]
  | seq xs, item b => by simp [equalBy, shape]
  | seq xs, seq ys => by
    rw [equalBy, equalAllBy_iff xs ys, shape, shape, seq.injEq, leaves, leaves]

/-- So it is with lists of nested values. -/
theorem equalAllBy_iff : ∀ xs ys : List (Nested α), equalAllBy e xs ys = true ↔
    shapes xs = shapes ys ∧ List.Forall₂ (fun a b => e a b = true) (leavesAll xs) (leavesAll ys)
  | [], [] => by simp [equalAllBy, leavesAll]
  | [], y :: ys => by simp [equalAllBy, shapes]
  | x :: xs, [] => by simp [equalAllBy, shapes]
  | x :: xs, y :: ys => by
    have hlen : x.shape = y.shape → x.leaves.length = y.leaves.length := by
      intro h
      rw [length_leaves x, h, ← length_leaves y]
    rw [equalAllBy, Bool.and_eq_true, equalBy_iff x y, equalAllBy_iff xs ys, shapes, shapes,
      List.cons.injEq, leavesAll, leavesAll]
    constructor
    · rintro ⟨⟨hshape, hleaves⟩, hshapes, hrest⟩
      exact ⟨⟨hshape, hshapes⟩, (forall₂_append_iff (hlen hshape)).2 ⟨hleaves, hrest⟩⟩
    · rintro ⟨⟨hshape, hshapes⟩, hall⟩
      obtain ⟨hleaves, hrest⟩ := (forall₂_append_iff (hlen hshape)).1 hall
      exact ⟨⟨hshape, hleaves⟩, hshapes, hrest⟩
end

end Compared

/-! ## Deep equality -/

variable [PrimitiveEq α]

/-- Deep equality is equality of the nesting, and primitive equality of the values one by one. -/
theorem deepSequenceEq_iff_shapes {xs ys : List (Nested α)} :
    deepSequenceEq xs ys = true ↔ shapes xs = shapes ys ∧
      List.Forall₂ (fun a b => primitiveEq a b = true) (leavesAll xs) (leavesAll ys) := by
  rw [← equalAllBy_eq_deepSequenceEq, equalAllBy_iff]

theorem deepSequenceEq_of_shapes_ne {xs ys : List (Nested α)} (h : shapes xs ≠ shapes ys) :
    deepSequenceEq xs ys = false := by
  rw [← Bool.not_eq_true, deepSequenceEq_iff_shapes]
  exact fun hxs => h hxs.1

theorem deepSequenceEq_symm (h : ∀ a b : α, primitiveEq a b = true → primitiveEq b a = true)
    {xs ys : List (Nested α)} (hxy : deepSequenceEq xs ys = true) :
    deepSequenceEq ys xs = true := by
  rw [deepSequenceEq_iff_shapes] at hxy ⊢
  exact ⟨hxy.1.symm, (hxy.2.imp h).flip⟩

theorem deepSequenceEq_trans
    (h : ∀ a b c : α, primitiveEq a b = true → primitiveEq b c = true → primitiveEq a c = true)
    {xs ys zs : List (Nested α)} (hxy : deepSequenceEq xs ys = true)
    (hyz : deepSequenceEq ys zs = true) : deepSequenceEq xs zs = true := by
  rw [deepSequenceEq_iff_shapes] at hxy hyz ⊢
  exact ⟨hxy.1.trans hyz.1, transitive_forall₂ h hxy.2 hyz.2⟩

/-- Nested sequences are deeply equal to themselves when all of their values are. -/
theorem deepSequenceEq_self_iff {xs : List (Nested α)} :
    deepSequenceEq xs xs = true ↔ ∀ a ∈ leavesAll xs, primitiveEq a a = true := by
  rw [deepSequenceEq_iff_shapes, List.forall₂_same]
  exact and_iff_right rfl

/-- One sequence more around a list does not change its values, and is seen all the same. -/
theorem deepSequenceEq_singleton_seq (xs : List (Nested α)) :
    deepSequenceEq xs [seq xs] = false ∧ deepSequenceEq [seq xs] xs = false := by
  have hne : shapes xs ≠ shapes [seq xs] := ne_singleton_seq (shapes xs)
  exact ⟨deepSequenceEq_of_shapes_ne hne, deepSequenceEq_of_shapes_ne hne.symm⟩

/-- Sequences without values are equal when they are of one depth. -/
theorem deepSequenceEq_hollow_iff {m n : Nat} :
    deepSequenceEq [hollow α m] [hollow α n] = true ↔ m = n := by
  rw [deepSequenceEq_iff_shapes]
  simp [shapes, leavesAll, leaves_hollow, shape_hollow_inj]

/-- Deep equality compares the nesting, and the values one by one. So it inherits symmetry and
transitivity from primitive equality, and nested sequences equal themselves exactly if each of their
values does. Lists of different nesting are told apart whatever their values are: from the list
inside one sequence more, which has the same values, and if they are sequences without any, by their
depth. -/
theorem deepSequenceEq_structural (α : Type) [PrimitiveEq α] :
    (∀ xs ys : List (Nested α), deepSequenceEq xs ys = true ↔ shapes xs = shapes ys ∧
      List.Forall₂ (fun a b => primitiveEq a b = true) (leavesAll xs) (leavesAll ys)) ∧
    ((∀ a b : α, primitiveEq a b = true → primitiveEq b a = true) →
      ∀ xs ys : List (Nested α), deepSequenceEq xs ys = true → deepSequenceEq ys xs = true) ∧
    ((∀ a b c : α, primitiveEq a b = true → primitiveEq b c = true → primitiveEq a c = true) →
      ∀ xs ys zs : List (Nested α), deepSequenceEq xs ys = true →
        deepSequenceEq ys zs = true → deepSequenceEq xs zs = true) ∧
    (∀ xs : List (Nested α), deepSequenceEq xs xs = true ↔
      ∀ a ∈ leavesAll xs, primitiveEq a a = true) ∧
    (∀ xs ys : List (Nested α), shapes xs ≠ shapes ys → deepSequenceEq xs ys = false) ∧
    (∀ xs : List (Nested α), leavesAll [seq xs] = leavesAll xs ∧
      deepSequenceEq xs [seq xs] = false ∧ deepSequenceEq [seq xs] xs = false) ∧
    ∀ m n : Nat, (hollow α m).leaves = [] ∧
      (deepSequenceEq [hollow α m] [hollow α n] = true ↔ m = n) := by
  refine ⟨fun xs ys => deepSequenceEq_iff_shapes, fun h xs ys => deepSequenceEq_symm h,
    fun h xs ys zs => deepSequenceEq_trans h, fun xs => deepSequenceEq_self_iff,
    fun xs ys => deepSequenceEq_of_shapes_ne, ?_, ?_⟩
  · intro xs
    have hleaves : leavesAll [seq xs] = leavesAll xs := by simp [leavesAll, leaves]
    exact ⟨hleaves, deepSequenceEq_singleton_seq xs⟩
  · intro m n
    exact ⟨leaves_hollow m, deepSequenceEq_hollow_iff⟩

/-- Lists with the two zeros at one place are equal in both directions. One with a NaN is not equal
to itself, and the same numbers without the sequence around the last of them make another list. -/
theorem deepSequenceEq_structural_zeros :
    let zero : Double := ⟨0⟩
    let minusZero : Double := ⟨0x8000000000000000⟩
    let nan : Double := ⟨0x7ff8000000000000⟩
    let one : Double := ⟨0x3ff0000000000000⟩
    deepSequenceEq [item zero, seq [item one, seq []]] [item minusZero, seq [item one, seq []]] ∧
      deepSequenceEq [item minusZero, seq [item one, seq []]] [item zero, seq [item one, seq []]] ∧
      deepSequenceEq [seq [item nan]] [seq [item nan]] = false ∧
      deepSequenceEq [item zero, seq [item one]] [item zero, item one] = false := by
  intro zero minusZero nan one
  obtain ⟨hiff, hsymm, -, hself, hshapes, -, -⟩ := deepSequenceEq_structural Double
  have hzeros : deepSequenceEq [item zero, seq [item one, seq []]]
      [item minusZero, seq [item one, seq []]] = true :=
    (hiff _ _).2 ⟨rfl, .cons (by decide) (.cons (by decide) .nil)⟩
  refine ⟨hzeros, hsymm (fun _ _ => Double.coherent_beq.symm) _ _ hzeros, ?_,
    hshapes _ _ (by simp [shapes, shape])⟩
  rw [← Bool.not_eq_true, hself]
  intro h
  have hnan := h nan (.head _)
  revert hnan
  decide

end Reconciler.Nested
