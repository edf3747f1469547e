import Mathlib.Data.List.Forall2
import Reconciler.Proofs.Comparison

/-!
# Equal values are sent alike

Arguments are compared one by one (`WireValue.list_beq_iff`), numbers as IEEE 754 has it and
resources by their descriptors. A value that is sent as it is compared is therefore sent alike when
it is found unchanged. That is so of all values but lengths in pixels and percent, which are sent as
text.
-/

namespace Reconciler

namespace WireValue

variable {α : Type} {xs ys : List WireValue}

@[simp] theorem beq_undefined : (undefined == undefined) = true := rfl

@[simp] theorem beq_bool (b c : Bool) : (bool b == bool c) = (b == c) := rfl

@[simp] theorem beq_int (m n : Int) : (int m == int n) = (m == n) := rfl

@[simp] theorem beq_number (x y : Double) : (number x == number y) = (x == y) := rfl

@[simp] theorem beq_text (s t : String) : (text s == text t) = (s == t) := rfl

@[simp] theorem beq_list : (list xs == list ys) = (xs == ys) := sameAll_eq_beq xs ys

/-- Lists of arguments are equal when they are so one by one. -/
theorem list_beq_iff :
    (xs == ys) = true ↔ List.Forall₂ (fun x y => (x == y) = true) xs ys := by
  induction xs generalizing ys with
  | nil => cases ys <;> simp
  | cons x xs ih => cases ys <;> simp [ih]

/-- Lists that are compared element by element are sent alike if their elements are. -/
theorem map_beq_map {f : α → WireValue} {r : α → α → Bool} {vs ws : List α}
    (hf : ∀ v w, r v w = true → (f v == f w) = true)
    (h : List.Forall₂ (fun v w => r v w = true) vs ws) : (vs.map f == ws.map f) = true := by
  rw [list_beq_iff, List.forall₂_map_left_iff, List.forall₂_map_right_iff]
  exact h.imp fun v w => hf v w

end WireValue

open WireValue

/-- Optional values agree as literals or resources if both are absent, or both are there and
agree. -/
theorem literalOrResourceEq_option_iff {α : Type} [HasResource α] [PrimitiveEq α] {v w : Option α} :
    literalOrResourceEq v w = true ↔
      (v = none ∧ w = none) ∨ ∃ x y, v = some x ∧ w = some y ∧ literalOrResourceEq x y = true := by
  cases v with
  | none =>
    cases w with
    | none => exact iff_of_true rfl (.inl ⟨rfl, rfl⟩)
    | some y => simp [literalOrResourceEq_iff, resource?, primitiveEq]
  | some x =>
    cases w with
    | none => simp [literalOrResourceEq_iff, resource?, primitiveEq]
    | some y => simp [literalOrResourceEq_iff, resource?, primitiveEq]

/-- Optional values are sent alike if values are. -/
theorem toWire_option_beq {α : Type} [HasResource α] [PrimitiveEq α] [ToWire α]
    (hα : ∀ v w : α, literalOrResourceEq v w = true → (toWire v == toWire w) = true)
    (v w : Option α) (h : literalOrResourceEq v w = true) : (toWire v == toWire w) = true := by
  rcases literalOrResourceEq_option_iff.1 h with ⟨rfl, rfl⟩ | ⟨x, y, rfl, rfl, hxy⟩
  · rfl
  · exact hα x y hxy

theorem Double.toWire_option_beq {x y : Option Double} (h : primitiveEq x y = true) :
    (toWire x == toWire y) = true := by
  cases x <;> cases y
  · rfl
  · cases h
  · cases h
  · exact h

/-- The codes of variants, and texts, equal themselves. -/
theorem toWire_int_beq_self (n : Option Int) : (toWire n == toWire n) = true := by
  cases n <;> simp [toWire]

theorem toWire_string_beq_self (s : Option String) : (toWire s == toWire s) = true := by
  cases s <;> simp [toWire]

theorem Color.toWire_beq (c d : Color) (h : literalOrResourceEq c d = true) :
    (toWire c == toWire d) = true := by
  rcases literalOrResourceEq_iff.1 h with ⟨r, s, hr, hs, hrs⟩ | ⟨-, -, heq⟩
  · cases c <;> cases hr
    cases d <;> cases hs
    exact hrs
  · rcases Color.primitiveEq_iff.1 heq with ⟨rfl, hliteral⟩
    cases c with
    | argb bits => simp [toWire]
    | named name => simp [toWire]
    | resource r => cases hliteral

theorem Amount.toWire_beq (m n : Amount) (h : literalOrResourceEq m n = true) :
    (toWire m == toWire n) = true := by
  rcases literalOrResourceEq_iff.1 h with ⟨r, s, hr, hs, hrs⟩ | ⟨-, -, heq⟩
  · cases m <;> cases hr
    cases n <;> cases hs
    exact hrs
  · rcases Amount.primitiveEq_iff.1 heq with ⟨x, y, hxy, rfl, rfl⟩
    exact hxy

theorem Matrix.toWire_beq (m n : Matrix) (h : deepEq m n = true) :
    (toWire m == toWire n) = true := by
  have hrows : List.Forall₂ (fun r s : Vector Double 4 => deepEq r s = true)
      m.rows.toList n.rows.toList := deepSequenceEq_iff.1 h
  have hentries : List.Forall₂ (fun x y : Double => (x == y) = true) m.entries n.entries :=
    List.rel_flatMap hrows fun r s hrs => deepSequenceEq_iff.1 hrs
  have hsent : (m.entries.map number == n.entries.map number) = true :=
    map_beq_map (fun x y hxy => hxy) hentries
  simpa [toWire] using hsent

theorem LinearGradient.args_beq (g h : LinearGradient) (hgh : g.same h = true) :
    (g.args == h.args) = true := by
  simp only [LinearGradient.same, Bool.and_eq_true, beq_iff_eq] at hgh
  rcases hgh with ⟨⟨⟨hangle, hdirection⟩, hrepeating⟩, hstops⟩
  have hargs : ∀ k : LinearGradient, k.args =
      [toWire k.angle, toWire (k.direction.map (·.code)),
        list (k.stops.map fun s => list [toWire s.1, number s.2]), bool k.repeating] :=
    fun _ => rfl
  have hfirst : (toWire g.angle == toWire h.angle) = true := Double.toWire_option_beq hangle
  have hsent : (g.stops.map (fun s => list [toWire s.1, number s.2]) ==
      h.stops.map (fun s => list [toWire s.1, number s.2])) = true := by
    refine map_beq_map (r := fun s t => deepEq s t) ?_ (deepSequenceEq_iff.1 hstops)
    intro s t hst
    have hstop : literalOrResourceEq s.1 t.1 = true ∧ (s.2 == t.2) = true := by
      simpa [deepEq, primitiveEq] using hst
    simp [Color.toWire_beq s.1 t.1 hstop.1, hstop.2]
  rw [hargs, hargs]
  simp [hfirst, hdirection, toWire_int_beq_self, hsent, hrepeating]

/-- Transitions that agree are one, and what is sent for them has no numbers in it. -/
theorem Transition.args_beq (t u : Transition) (h : t.same u = true) :
    (t.args == u.args) = true := by
  simp only [Transition.same, Bool.and_eq_true, beq_iff_eq] at h
  simp [args, h.1, h.2, toWire_int_beq_self]

end Reconciler
