import Mathlib.Data.List.Forall2
import Mathlib.Tactic.MkIffOfInductiveProp
import Reconciler.Proofs.Structural

/-!
# What the comparisons compare

`Alike` spells out, for the values of every attribute, what it is to be equal part by part: one
variant, all fields alike and set in both values or in none, lists of one length with elements alike
one by one, numbers equal as IEEE 754 has it, texts and codes the same, resources of one name with
one bag of parameters, and transitions of the same content. It does not mention how any attribute
computes its comparison.

Every comparison decides it (`Standard.unchanged_iff_alike`), so none forgets a field, or the length
of a list. As equality of numbers is, being alike is symmetric and transitive, and a value is alike
to itself unless there is a NaN among its numbers.
-/

namespace Reconciler

/-! ## Being alike -/

/-- Numbers that are equal as IEEE 754 has it: neither is a NaN, and they are one or both zeros. -/
def Double.Alike (x y : Double) : Prop :=
  x.isNaN = false ∧ y.isNaN = false ∧ (x = y ∨ x.isZero = true ∧ y.isZero = true)

/-- Resources of one name, with the same object for a bag of parameters, or none. -/
@[mk_iff]
structure Resource.Alike (r s : Resource) : Prop where
  bundle : r.bundle = s.bundle
  moduleName : r.moduleName = s.moduleName
  id : r.id = s.id
  params : Option.Rel (fun p q => p.token = q.token) r.params s.params

/-- Lengths in one unit, or both resources. -/
inductive Length.Alike : Length → Length → Prop
  | vp {x y : Double} (h : x.Alike y) : Alike (.vp x) (.vp y)
  | px {x y : Double} (h : x.Alike y) : Alike (.px x) (.px y)
  | percent {x y : Double} (h : x.Alike y) : Alike (.percent x) (.percent y)
  | resource {r s : Resource} (h : r.Alike s) : Alike (.resource r) (.resource s)

/-- Colors in one form. -/
inductive Color.Alike : Color → Color → Prop
  | argb (bits : UInt32) : Alike (.argb bits) (.argb bits)
  | named (name : String) : Alike (.named name) (.named name)
  | resource {r s : Resource} (h : r.Alike s) : Alike (.resource r) (.resource s)

/-- Both numbers, or both resources. -/
inductive Amount.Alike : Amount → Amount → Prop
  | value {x y : Double} (h : x.Alike y) : Alike (.value x) (.value y)
  | resource {r s : Resource} (h : r.Alike s) : Alike (.resource r) (.resource s)

/-- Insets with all sides alike. -/
@[mk_iff]
structure Inset.Alike (v w : Inset) : Prop where
  top : Option.Rel Length.Alike v.top w.top
  right : Option.Rel Length.Alike v.right w.right
  bottom : Option.Rel Length.Alike v.bottom w.bottom
  left : Option.Rel Length.Alike v.left w.left

/-- Borders with all edges alike. -/
@[mk_iff]
structure Edges.Alike {α : Type} (R : α → α → Prop) (v w : Edges α) : Prop where
  left : Option.Rel R v.left w.left
  right : Option.Rel R v.right w.right
  top : Option.Rel R v.top w.top
  bottom : Option.Rel R v.bottom w.bottom

/-- Radii alike at all corners. -/
@[mk_iff]
structure Corners.Alike (v w : Corners) : Prop where
  topLeft : Option.Rel Length.Alike v.topLeft w.topLeft
  topRight : Option.Rel Length.Alike v.topRight w.topRight
  bottomLeft : Option.Rel Length.Alike v.bottomLeft w.bottomLeft
  bottomRight : Option.Rel Length.Alike v.bottomRight w.bottomRight

/-- Offsets alike on both axes. -/
@[mk_iff]
structure Offset.Alike (v w : Offset) : Prop where
  x : Option.Rel Length.Alike v.x w.x
  y : Option.Rel Length.Alike v.y w.y

/-- Rectangles with all fields alike. -/
@[mk_iff]
structure Rect.Alike (r s : Rect) : Prop where
  x : Option.Rel Length.Alike r.x s.x
  y : Option.Rel Length.Alike r.y s.y
  width : Option.Rel Length.Alike r.width s.width
  height : Option.Rel Length.Alike r.height s.height

/-- Matrices with all entries equal. -/
def Matrix.Alike (m n : Matrix) : Prop :=
  ∀ i j : Fin 4, m.rows[i][j].Alike n.rows[i][j]

/-- Gradients with all stops alike, in order, and all else the same. -/
@[mk_iff]
structure LinearGradient.Alike (g h : LinearGradient) : Prop where
  angle : Option.Rel Double.Alike g.angle h.angle
  direction : g.direction = h.direction
  stops : List.Forall₂ (fun s t => s.1.Alike t.1 ∧ s.2.Alike t.2) g.stops h.stops
  repeating : g.repeating = h.repeating

/-- Fonts of sizes alike, and all else the same. -/
@[mk_iff]
structure Font.Alike (f g : Font) : Prop where
  size : Option.Rel Length.Alike f.size g.size
  weight : f.weight = g.weight
  family : f.family = g.family
  style : f.style = g.style

/-- Values of an attribute that are equal part by part. -/
def Standard.Alike : (a : Attribute) → Standard.Value a → Standard.Value a → Prop
  | .width => fun (v w : Length) => v.Alike w
  | .height => fun (v w : Length) => v.Alike w
  | .layoutWeight => fun (v w : Double) => v.Alike w
  | .padding => fun (v w : Inset) => v.Alike w
  | .margin => fun (v w : Inset) => v.Alike w
  | .backgroundColor => fun (v w : Color) => v.Alike w
  | .opacity => fun (v w : Amount) => v.Alike w
  | .borderWidth => fun (v w : Edges Length) => v.Alike Length.Alike w
  | .borderColor => fun (v w : Edges Color) => v.Alike Color.Alike w
  | .borderRadius => fun (v w : Corners) => v.Alike w
  | .position => fun (v w : Offset) => v.Alike w
  | .zIndex => fun (v w : Double) => v.Alike w
  | .visibility => fun (v w : Visibility) => v = w
  | .transform => fun (v w : Matrix) => v.Alike w
  | .linearGradient => fun (v w : LinearGradient) => v.Alike w
  | .font => fun (v w : Font) => v.Alike w
  | .responseRegion => fun (v w : List Rect) => List.Forall₂ Rect.Alike v w
  | .touchable => fun (v w : Bool) => v = w
  | .focusable => fun (v w : Bool) => v = w
  | .hoverEffect => fun (v w : HoverEffect) => v = w
  | .sharedTransition => fun (v w : TransitionRef) => v.transition = w.transition

/-! ## Equality decides it -/

section Containers

variable {α : Type} [BEq α] {R : α → α → Prop}

theorem option_beq_iff_rel (h : ∀ x y : α, (x == y) = true ↔ R x y) (o p : Option α) :
    (o == p) = true ↔ Option.Rel R o p := by
  constructor
  · intro heq
    cases o <;> cases p
    · exact .none
    · cases heq
    · cases heq
    · exact .some ((h _ _).1 heq)
  · intro hrel
    cases hrel with
    | none => rfl
    | some hxy => exact (h _ _).2 hxy

theorem list_beq_iff_forall₂ (h : ∀ x y : α, (x == y) = true ↔ R x y) (xs ys : List α) :
    (xs == ys) = true ↔ List.Forall₂ R xs ys := by
  induction xs generalizing ys with
  | nil => cases ys <;> simp
  | cons x xs ih => cases ys <;> simp [h, ih]

end Containers

theorem Double.beq_iff_alike (x y : Double) : (x == y) = true ↔ x.Alike y := Double.beq_iff

theorem Resource.beq_iff_alike (r s : Resource) : (r == s) = true ↔ r.Alike s := by
  have hbag : ∀ p q : Shared (List Param), (p == q) = true ↔ p.token = q.token :=
    fun _ _ => Shared.beq_iff
  rw [Resource.beq_iff, option_beq_iff_rel hbag, Resource.alike_iff]

theorem Length.beq_iff_alike (l m : Length) : (l == m) = true ↔ l.Alike m := by
  constructor
  · intro h
    cases l <;> cases m <;> try cases h
    · exact .vp ((Double.beq_iff_alike _ _).1 h)
    · exact .px ((Double.beq_iff_alike _ _).1 h)
    · exact .percent ((Double.beq_iff_alike _ _).1 h)
    · exact .resource ((Resource.beq_iff_alike _ _).1 h)
  · intro h
    cases h with
    | vp h => exact (Double.beq_iff_alike _ _).2 h
    | px h => exact (Double.beq_iff_alike _ _).2 h
    | percent h => exact (Double.beq_iff_alike _ _).2 h
    | resource h => exact (Resource.beq_iff_alike _ _).2 h

theorem Color.beq_iff_alike (c d : Color) : (c == d) = true ↔ c.Alike d := by
  constructor
  · intro h
    cases c <;> cases d <;> try cases h
    · obtain rfl := (beq_iff_eq (α := UInt32)).1 h
      exact .argb _
    · obtain rfl := (beq_iff_eq (α := String)).1 h
      exact .named _
    · exact .resource ((Resource.beq_iff_alike _ _).1 h)
  · intro h
    cases h with
    | argb bits => exact beq_self_eq_true bits
    | named name => exact beq_self_eq_true name
    | resource h => exact (Resource.beq_iff_alike _ _).2 h

theorem Amount.beq_iff_alike (m n : Amount) : (m == n) = true ↔ m.Alike n := by
  constructor
  · intro h
    cases m <;> cases n <;> try cases h
    · exact .value ((Double.beq_iff_alike _ _).1 h)
    · exact .resource ((Resource.beq_iff_alike _ _).1 h)
  · intro h
    cases h with
    | value h => exact (Double.beq_iff_alike _ _).2 h
    | resource h => exact (Resource.beq_iff_alike _ _).2 h

theorem Length.beq_iff_rel (o p : Option Length) : (o == p) = true ↔ Option.Rel Length.Alike o p :=
  option_beq_iff_rel Length.beq_iff_alike o p

theorem Inset.beq_iff_alike (v w : Inset) : (v == w) = true ↔ v.Alike w := by
  rw [← Inset.beq_fields, Inset.alike_iff]
  simp [fields, Length.beq_iff_rel]

theorem Edges.beq_iff_alike {α : Type} [BEq α] {R : α → α → Prop}
    (h : ∀ x y : α, (x == y) = true ↔ R x y) (v w : Edges α) :
    (v == w) = true ↔ v.Alike R w := by
  rw [← Edges.beq_fields, Edges.alike_iff]
  simp [fields, option_beq_iff_rel h]

theorem Corners.beq_iff_alike (v w : Corners) : (v == w) = true ↔ v.Alike w := by
  rw [← Corners.beq_fields, Corners.alike_iff]
  simp [fields, Length.beq_iff_rel]

theorem Offset.beq_iff_alike (v w : Offset) : (v == w) = true ↔ v.Alike w := by
  rw [← Offset.beq_fields, Offset.alike_iff]
  simp [fields, Length.beq_iff_rel]

theorem Rect.beq_iff_alike (r s : Rect) : (r == s) = true ↔ r.Alike s := by
  rw [← Rect.beq_fields, Rect.alike_iff]
  simp [fields, Length.beq_iff_rel]

/-- Vectors are equal when they are place by place. -/
theorem vector_beq_iff_forall {α : Type} [BEq α] {n : Nat} {R : α → α → Prop}
    (h : ∀ x y : α, (x == y) = true ↔ R x y) (x y : Vector α n) :
    (x == y) = true ↔ ∀ i : Fin n, R x[i] y[i] := by
  rw [← Vector.toList_beq_toList, list_beq_iff_forall₂ h, List.forall₂_iff_get]
  constructor
  · rintro ⟨-, hget⟩ i
    have hi := hget i (by simp) (by simp)
    simpa using hi
  · intro hget
    refine ⟨by simp, ?_⟩
    intro i hx hy
    have hi : i < n := by simpa using hx
    simpa using hget ⟨i, hi⟩

theorem Matrix.beq_iff_alike (m n : Matrix) : (m == n) = true ↔ m.Alike n := by
  have hrow : ∀ x y : Vector Double 4, (x == y) = true ↔ ∀ j : Fin 4, x[j].Alike y[j] :=
    vector_beq_iff_forall Double.beq_iff_alike
  exact vector_beq_iff_forall hrow m.rows n.rows

theorem LinearGradient.beq_iff_alike (g h : LinearGradient) : (g == h) = true ↔ g.Alike h := by
  have hparts : (g == h) = (g.angle == h.angle && (g.direction == h.direction &&
      (g.stops == h.stops && g.repeating == h.repeating))) := rfl
  have hangle := option_beq_iff_rel Double.beq_iff_alike g.angle h.angle
  have hstop : ∀ s t : Color × Double, (s == t) = true ↔ s.1.Alike t.1 ∧ s.2.Alike t.2 := by
    intro s t
    have hpair : (s == t) = (s.1 == t.1 && s.2 == t.2) := rfl
    rw [hpair, Bool.and_eq_true, Color.beq_iff_alike, Double.beq_iff_alike]
  have hstops := list_beq_iff_forall₂ hstop g.stops h.stops
  rw [hparts, LinearGradient.alike_iff, ← hangle, ← hstops]
  simp only [Bool.and_eq_true, beq_iff_eq]

theorem Font.beq_iff_alike (f g : Font) : (f == g) = true ↔ f.Alike g := by
  have hparts : (f == g) = (f.size == g.size && (f.weight == g.weight &&
      (f.family == g.family && f.style == g.style))) := rfl
  rw [hparts, Font.alike_iff, ← Length.beq_iff_rel]
  simp only [Bool.and_eq_true, beq_iff_eq]

namespace Standard

/-- Values are equal part by part exactly if all their parts are alike. -/
theorem beq_iff_alike (a : Attribute) (v w : Value a) : (v == w) = true ↔ Alike a v w := by
  cases a with
  | width => exact Length.beq_iff_alike v w
  | height => exact Length.beq_iff_alike v w
  | layoutWeight => exact Double.beq_iff_alike v w
  | padding => exact Inset.beq_iff_alike v w
  | margin => exact Inset.beq_iff_alike v w
  | backgroundColor => exact Color.beq_iff_alike v w
  | opacity => exact Amount.beq_iff_alike v w
  | borderWidth => exact Edges.beq_iff_alike Length.beq_iff_alike v w
  | borderColor => exact Edges.beq_iff_alike Color.beq_iff_alike v w
  | borderRadius => exact Corners.beq_iff_alike v w
  | position => exact Offset.beq_iff_alike v w
  | zIndex => exact Double.beq_iff_alike v w
  | visibility => exact beq_iff_eq (α := Visibility)
  | transform => exact Matrix.beq_iff_alike v w
  | linearGradient => exact LinearGradient.beq_iff_alike v w
  | font => exact Font.beq_iff_alike v w
  | responseRegion => exact list_beq_iff_forall₂ Rect.beq_iff_alike v w
  | touchable => exact beq_iff_eq (α := Bool)
  | focusable => exact beq_iff_eq (α := Bool)
  | hoverEffect => exact beq_iff_eq (α := HoverEffect)
  | sharedTransition => exact beq_iff_eq (α := Transition)

/-- A staged value is judged unchanged over a committed one exactly if all their parts are alike. So
the judgement may be read in both directions and followed from one value to the next, and a value is
unchanged against itself exactly if there is no NaN among its numbers. -/
theorem unchanged_iff_alike (a : Attribute) :
    (∀ v w : Value a, (policy a).verdict v (some w) = .unchanged ↔ Alike a v w) ∧
    (∀ v w : Value a, (policy a).verdict v (some w) = .unchanged →
      (policy a).verdict w (some v) = .unchanged) ∧
    (∀ u v w : Value a, (policy a).verdict u (some v) = .unchanged →
      (policy a).verdict v (some w) = .unchanged → (policy a).verdict u (some w) = .unchanged) ∧
    ∀ v : Value a, (policy a).verdict v (some v) = .unchanged ↔ NaNFree (numbers a v) := by
  have hverdict : ∀ v w : Value a,
      (policy a).verdict v (some w) = .unchanged ↔ unchanged a v w = true :=
    fun v w => verdict_eq_unchanged_iff
  refine ⟨?alike, ?symmetric, ?transitive, ?reflexive⟩
  case alike =>
    intro v w
    rw [hverdict, unchanged_eq_beq, beq_iff_alike]
  case symmetric =>
    intro v w hvw
    rw [hverdict] at hvw ⊢
    exact (coherent_unchanged a).symm hvw
  case transitive =>
    intro u v w huv hvw
    rw [hverdict] at huv hvw ⊢
    exact (coherent_unchanged a).trans huv hvw
  case reflexive =>
    intro v
    rw [hverdict, unchanged_self_iff]

/-- A region is changed when another rectangle is added at its end. The two zeros are unchanged
against each other, in either order, and so is a resource against itself when there is a NaN in its
bag. -/
theorem unchanged_iff_alike_zeros_and_region :
    let r : Rect := { x := some (.px ⟨0⟩) }
    let zero : Length := .px ⟨0⟩
    let minus : Length := .px ⟨0x8000000000000000⟩
    let shade : Color := .resource ⟨"app", "entry", 1, some ⟨0, [.number .nan]⟩⟩
    ¬ (policy .responseRegion).verdict [r, r] (some [r]) = .unchanged ∧
      (policy .width).verdict minus (some zero) = .unchanged ∧
      (policy .width).verdict zero (some minus) = .unchanged ∧
      (policy .backgroundColor).verdict shade (some shade) = .unchanged := by
  intro r zero minus shade
  have hzeros : Alike .width minus zero := .px ⟨by decide, by decide, .inr ⟨by decide, by decide⟩⟩
  rcases unchanged_iff_alike .width with ⟨alike, symmetric, -⟩
  have hminus := (alike minus zero).2 hzeros
  refine ⟨?_, hminus, symmetric minus zero hminus,
    ((unchanged_iff_alike .backgroundColor).2.2.2 shade).2 nanFree_nil⟩
  intro h
  have hregion : List.Forall₂ Rect.Alike [r, r] [r] :=
    ((unchanged_iff_alike .responseRegion).1 [r, r] [r]).1 h
  have hlength := hregion.length_eq
  simp at hlength

end Standard

end Reconciler
