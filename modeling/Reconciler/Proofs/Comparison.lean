import Mathlib.Data.List.Forall2
import Reconciler.Standard

/-!
# Comparisons are coherent

A commit that finds its value unchanged keeps the new value and makes no call, so the value that the
peer has may be several comparisons away from the committed one. Nothing is lost on the way because
every comparison is *coherent*: symmetric and transitive. None is reflexive, for a NaN equals
nothing.

Coherence is shown for the primitives, then for each way to put comparisons together (options,
literals or resources, lists of fields, sequences, pairs), and at the end for every attribute:
`Standard.coherent_unchanged`.
-/

namespace Reconciler

/-- Lists inherit a transitive relation from their elements. -/
theorem transitive_forall₂ {α : Type} {R : α → α → Prop}
    (h : ∀ x y z, R x y → R y z → R x z) {xs ys zs : List α} (hxy : List.Forall₂ R xs ys)
    (hyz : List.Forall₂ R ys zs) : List.Forall₂ R xs zs := by
  induction hxy generalizing zs with
  | nil => exact hyz
  | cons hx _ ih =>
    rcases List.forall₂_cons_left_iff.1 hyz with ⟨z, rest, hz, hrest, rfl⟩
    exact .cons (h _ _ _ hx hz) (ih hrest)

/-- A comparison that may be read in both directions, and followed from one value to the next. -/
structure Coherent {α : Type} (r : α → α → Bool) : Prop where
  symm : ∀ {x y : α}, r x y = true → r y x = true
  trans : ∀ {x y z : α}, r x y = true → r y z = true → r x z = true

namespace Coherent

variable {α β : Type} {r s : α → α → Bool}

/-- Equality is coherent, in whatever way it is computed. -/
theorem of_eq (h : ∀ x y : α, r x y = true ↔ x = y) : Coherent r := by
  constructor
  · intro x y hxy
    rw [h] at hxy ⊢
    exact hxy.symm
  · intro x y z hxy hyz
    rw [h] at hxy hyz ⊢
    exact hxy.trans hyz

/-- Values may be compared by a part of them. -/
theorem comap (f : β → α) (h : Coherent r) : Coherent fun x y => r (f x) (f y) :=
  ⟨h.symm, h.trans⟩

/-- Values may be compared in two ways at once. -/
theorem and (hr : Coherent r) (hs : Coherent s) : Coherent fun x y => r x y && s x y := by
  constructor
  · intro x y h
    rw [Bool.and_eq_true] at h ⊢
    exact ⟨hr.symm h.1, hs.symm h.2⟩
  · intro x y z hxy hyz
    rw [Bool.and_eq_true] at hxy hyz ⊢
    exact ⟨hr.trans hxy.1 hyz.1, hs.trans hxy.2 hyz.2⟩

theorem forall₂_symm (hr : Coherent r) {xs ys : List α}
    (h : List.Forall₂ (fun x y => r x y = true) xs ys) :
    List.Forall₂ (fun x y => r x y = true) ys xs :=
  (h.imp fun _ _ => hr.symm).flip

theorem forall₂_trans (hr : Coherent r) {xs ys zs : List α}
    (hxy : List.Forall₂ (fun x y => r x y = true) xs ys)
    (hyz : List.Forall₂ (fun x y => r x y = true) ys zs) :
    List.Forall₂ (fun x y => r x y = true) xs zs :=
  transitive_forall₂ (R := fun x y => r x y = true) (fun _ _ _ => hr.trans) hxy hyz

/-- Lists may be compared element by element. -/
theorem list (hr : Coherent r) {rs : List α → List α → Bool}
    (h : ∀ xs ys, rs xs ys = true ↔ List.Forall₂ (fun x y => r x y = true) xs ys) :
    Coherent rs := by
  constructor
  · intro xs ys hxy
    rw [h] at hxy ⊢
    exact hr.forall₂_symm hxy
  · intro xs ys zs hxy hyz
    rw [h] at hxy hyz ⊢
    exact hr.forall₂_trans hxy hyz

/-- Optional values may be compared by what is in them, if an absent one differs from all others. -/
theorem option (hr : Coherent r) {ro : Option α → Option α → Bool}
    (hsome : ∀ x y, ro (some x) (some y) = r x y) (hleft : ∀ x, ro (some x) none = false)
    (hright : ∀ y, ro none (some y) = false) : Coherent ro := by
  constructor
  · rintro (_ | x) (_ | y) h
    · exact h
    · simp [hright] at h
    · simp [hleft] at h
    · rw [hsome] at h ⊢
      exact hr.symm h
  · rintro (_ | x) (_ | y) (_ | z) hxy hyz
    all_goals simp_all
    exact hr.trans hxy hyz

end Coherent

/-! ## Primitives -/

/-- Two doubles are equal when they are one, or both zeros, and no NaN. -/
theorem Double.beq_iff {x y : Double} :
    (x == y) = true ↔
      x.isNaN = false ∧ y.isNaN = false ∧ (x = y ∨ x.isZero = true ∧ y.isZero = true) := by
  have hbits : x.bits = y.bits ↔ x = y := by
    rcases x with ⟨x⟩
    rcases y with ⟨y⟩
    simp
  have h : (x == y) = Double.eq x y := rfl
  rw [h]
  simp [Double.eq, hbits, and_assoc]

theorem Double.coherent_beq : Coherent fun x y : Double => x == y := by
  constructor
  · intro x y h
    rw [Double.beq_iff] at h ⊢
    exact ⟨h.2.1, h.1, h.2.2.imp Eq.symm And.symm⟩
  · intro x y z hxy hyz
    rw [Double.beq_iff] at hxy hyz ⊢
    refine ⟨hxy.1, hyz.2.1, ?_⟩
    rcases hxy.2.2 with rfl | ⟨hx, hy⟩
    · exact hyz.2.2
    · rcases hyz.2.2 with rfl | ⟨-, hz⟩
      · exact .inr ⟨hx, hy⟩
      · exact .inr ⟨hx, hz⟩

/-- Bags are compared by the object that they are. -/
theorem Shared.coherent_same {α : Type} : Coherent (Shared.same : Shared α → Shared α → Bool) :=
  (Coherent.of_eq fun _ _ : Nat => beq_iff_eq).comap Shared.token

theorem Resource.coherent_same : Coherent Resource.same := by
  have hparams : Coherent fun p q : Option (Shared (List Param)) => p == q :=
    Shared.coherent_same.option (fun _ _ => rfl) (fun _ => rfl) (fun _ => rfl)
  exact ((((Coherent.of_eq fun _ _ : String => beq_iff_eq).comap Resource.bundle).and
    ((Coherent.of_eq fun _ _ : String => beq_iff_eq).comap Resource.moduleName)).and
    ((Coherent.of_eq fun _ _ : Int => beq_iff_eq).comap Resource.id)).and
    (hparams.comap Resource.params)

/-- Optional values inherit primitive equality. -/
theorem coherent_primitiveEq_option {α : Type} [PrimitiveEq α]
    (h : Coherent (primitiveEq : α → α → Bool)) :
    Coherent (primitiveEq : Option α → Option α → Bool) :=
  h.option (fun _ _ => rfl) (fun _ => rfl) (fun _ => rfl)

/-- What literal-or-resource equality compares: two resources, or two literals. -/
theorem literalOrResourceEq_iff {α : Type} [HasResource α] [PrimitiveEq α] {x y : α} :
    literalOrResourceEq x y = true ↔
      (∃ r s, resource? x = some r ∧ resource? y = some s ∧ r.same s = true) ∨
        (resource? x = none ∧ resource? y = none ∧ primitiveEq x y = true) := by
  unfold literalOrResourceEq
  cases resource? x <;> cases resource? y <;> simp

theorem coherent_literalOrResourceEq {α : Type} [HasResource α] [PrimitiveEq α]
    (h : Coherent (primitiveEq : α → α → Bool)) :
    Coherent (literalOrResourceEq : α → α → Bool) := by
  constructor
  · intro x y hxy
    rw [literalOrResourceEq_iff] at hxy ⊢
    rcases hxy with ⟨r, s, hr, hs, hrs⟩ | ⟨hx, hy, hxy⟩
    · exact .inl ⟨s, r, hs, hr, Resource.coherent_same.symm hrs⟩
    · exact .inr ⟨hy, hx, h.symm hxy⟩
  · intro x y z hxy hyz
    rw [literalOrResourceEq_iff] at hxy hyz ⊢
    rcases hxy with ⟨r, s, hr, hs, hrs⟩ | ⟨hx, hy, hxy⟩ <;>
      rcases hyz with ⟨s', t, hs', ht, hst⟩ | ⟨hy', hz, hyz⟩
    · have : s = s' := by simpa [hs] using hs'
      subst this
      exact .inl ⟨r, t, hr, ht, Resource.coherent_same.trans hrs hst⟩
    · simp [hs] at hy'
    · simp [hy] at hs'
    · exact .inr ⟨hx, hz, h.trans hxy hyz⟩

/-! ## Lists of fields and sequences -/

/-- Lists of as many fields agree when they do so field by field. -/
theorem fieldsEq_iff {α : Type} [HasResource α] [PrimitiveEq α] {xs ys : List (Option α)}
    (h : xs.length = ys.length) :
    fieldsEq xs ys = true ↔ List.Forall₂ (fun x y => literalOrResourceEq x y = true) xs ys := by
  simp [fieldsEq, List.forall₂_iff_zip, h]

theorem deepSequenceEq_iff {α : Type} [DeepEq α] {xs ys : List α} :
    deepSequenceEq xs ys = true ↔ List.Forall₂ (fun x y => deepEq x y = true) xs ys := by
  simp [deepSequenceEq, List.forall₂_iff_zip]

theorem Rect.sameAll_iff {rs ss : List Rect} :
    Rect.sameAll rs ss = true ↔ List.Forall₂ (fun r s => r.same s = true) rs ss := by
  simp [Rect.sameAll, List.forall₂_iff_zip]

/-- A shape that always lists as many fields is compared coherently along them. -/
theorem coherent_fieldsEq {α β : Type} [HasResource α] [PrimitiveEq α]
    (h : Coherent (primitiveEq : α → α → Bool)) (fields : β → List (Option α))
    (hlen : ∀ v w, (fields v).length = (fields w).length) :
    Coherent fun v w => fieldsEq (fields v) (fields w) := by
  have hfield : Coherent (literalOrResourceEq : Option α → Option α → Bool) :=
    coherent_literalOrResourceEq (coherent_primitiveEq_option h)
  -- the lists are of one length, so nothing is cut off where they are zipped
  constructor
  · intro v w hvw
    rw [fieldsEq_iff (hlen _ _)] at hvw ⊢
    exact hfield.forall₂_symm hvw
  · intro u v w huv hvw
    rw [fieldsEq_iff (hlen _ _)] at huv hvw ⊢
    exact hfield.forall₂_trans huv hvw

theorem coherent_deepSequenceEq {α : Type} [DeepEq α] (h : Coherent (deepEq : α → α → Bool)) :
    Coherent (deepSequenceEq : List α → List α → Bool) :=
  h.list fun _ _ => deepSequenceEq_iff

/-! ## The values of the catalog -/

/-- Two literal lengths are equal when they have one unit and equal numbers. -/
theorem Length.primitiveEq_iff {l m : Length} :
    primitiveEq l m = true ↔
      ∃ x y, (x == y) = true ∧
        (l = .vp x ∧ m = .vp y ∨ l = .px x ∧ m = .px y ∨ l = .percent x ∧ m = .percent y) := by
  cases l <;> cases m <;> simp [primitiveEq]

theorem Length.coherent_primitiveEq : Coherent (primitiveEq : Length → Length → Bool) := by
  constructor
  · intro l m h
    rw [Length.primitiveEq_iff] at h ⊢
    rcases h with ⟨x, y, hxy, h⟩
    exact ⟨y, x, Double.coherent_beq.symm hxy, h.imp And.symm (Or.imp And.symm And.symm)⟩
  · intro l m n hlm hmn
    rw [Length.primitiveEq_iff] at hlm hmn ⊢
    rcases hlm with ⟨x, y, hxy, hlm⟩
    rcases hmn with ⟨y', z, hyz, hmn⟩
    -- the length in the middle has one unit and one number
    have hy : y' = y := by
      rcases hlm with ⟨-, rfl⟩ | ⟨-, rfl⟩ | ⟨-, rfl⟩ <;> simp at hmn <;> exact hmn.1.symm
    subst hy
    refine ⟨x, z, Double.coherent_beq.trans hxy hyz, ?_⟩
    rcases hlm with ⟨rfl, rfl⟩ | ⟨rfl, rfl⟩ | ⟨rfl, rfl⟩ <;> simpa using hmn

/-- Two literal colors are equal when they are one. -/
theorem Color.primitiveEq_iff {c d : Color} :
    primitiveEq c d = true ↔ c = d ∧ resource? c = none := by
  cases c <;> cases d <;> simp [primitiveEq, resource?]

theorem Color.coherent_primitiveEq : Coherent (primitiveEq : Color → Color → Bool) := by
  constructor
  · intro c d h
    rw [Color.primitiveEq_iff] at h ⊢
    rcases h with ⟨rfl, h⟩
    exact ⟨rfl, h⟩
  · intro c d e hcd hde
    rw [Color.primitiveEq_iff] at hcd hde ⊢
    exact ⟨hcd.1.trans hde.1, hcd.2⟩

/-- Two literal amounts are equal when their numbers are. -/
theorem Amount.primitiveEq_iff {m n : Amount} :
    primitiveEq m n = true ↔ ∃ x y, (x == y) = true ∧ m = .value x ∧ n = .value y := by
  cases m <;> cases n <;> simp [primitiveEq]

theorem Amount.coherent_primitiveEq : Coherent (primitiveEq : Amount → Amount → Bool) := by
  constructor
  · intro m n h
    rw [Amount.primitiveEq_iff] at h ⊢
    rcases h with ⟨x, y, hxy, hm, hn⟩
    exact ⟨y, x, Double.coherent_beq.symm hxy, hn, hm⟩
  · intro l m n hlm hmn
    rw [Amount.primitiveEq_iff] at hlm hmn ⊢
    rcases hlm with ⟨x, y, hxy, rfl, rfl⟩
    rcases hmn with ⟨y', z, hyz, hy, rfl⟩
    rw [Amount.value.injEq] at hy
    subst hy
    exact ⟨x, z, Double.coherent_beq.trans hxy hyz, rfl, rfl⟩

theorem coherent_deepEq_double : Coherent (deepEq : Double → Double → Bool) := Double.coherent_beq

theorem Matrix.coherent_deepEq : Coherent (deepEq : Matrix → Matrix → Bool) :=
  (coherent_deepSequenceEq ((coherent_deepSequenceEq coherent_deepEq_double).comap
    Vector.toList)).comap fun m : Matrix => m.rows.toList

theorem LinearGradient.coherent_same : Coherent LinearGradient.same := by
  have hangle : Coherent (primitiveEq : Option Double → Option Double → Bool) :=
    coherent_primitiveEq_option Double.coherent_beq
  have hstop : Coherent (deepEq : Color × Double → Color × Double → Bool) :=
    ((coherent_literalOrResourceEq Color.coherent_primitiveEq).comap Prod.fst).and
      (Double.coherent_beq.comap Prod.snd)
  exact (((hangle.comap LinearGradient.angle).and
    ((Coherent.of_eq fun _ _ => beq_iff_eq).comap LinearGradient.direction)).and
    ((Coherent.of_eq fun _ _ => beq_iff_eq).comap LinearGradient.repeating)).and
    ((coherent_deepSequenceEq hstop).comap LinearGradient.stops)

theorem Font.coherent_same : Coherent Font.same := by
  have hsize : Coherent (literalOrResourceEq : Option Length → Option Length → Bool) :=
    coherent_literalOrResourceEq (coherent_primitiveEq_option Length.coherent_primitiveEq)
  exact (((hsize.comap Font.size).and
    ((Coherent.of_eq fun _ _ => beq_iff_eq).comap Font.weight)).and
    ((Coherent.of_eq fun _ _ => beq_iff_eq).comap Font.family)).and
    ((Coherent.of_eq fun _ _ => beq_iff_eq).comap Font.style)

theorem Rect.coherent_sameAll : Coherent Rect.sameAll := by
  have hrect : Coherent Rect.same :=
    coherent_fieldsEq Length.coherent_primitiveEq Rect.fields fun _ _ => rfl
  exact hrect.list fun _ _ => Rect.sameAll_iff

theorem Transition.coherent_same : Coherent Transition.same :=
  ((Coherent.of_eq fun _ _ => beq_iff_eq).comap Transition.id).and
    ((Coherent.of_eq fun _ _ => beq_iff_eq).comap Transition.options)

/-- The comparison of every attribute is coherent. -/
theorem Standard.coherent_unchanged (a : Attribute) : Coherent (Standard.unchanged a) := by
  have hlength := Length.coherent_primitiveEq
  have hcolor := Color.coherent_primitiveEq
  have hsize : Coherent (literalOrResourceEq : Length → Length → Bool) :=
    coherent_literalOrResourceEq hlength
  have hfill : Coherent (literalOrResourceEq : Color → Color → Bool) :=
    coherent_literalOrResourceEq hcolor
  have hopacity : Coherent (literalOrResourceEq : Amount → Amount → Bool) :=
    coherent_literalOrResourceEq Amount.coherent_primitiveEq
  cases a with
  | width => exact hsize
  | height => exact hsize
  | layoutWeight => exact Double.coherent_beq
  | padding => exact coherent_fieldsEq hlength Inset.fields fun _ _ => rfl
  | margin => exact coherent_fieldsEq hlength Inset.fields fun _ _ => rfl
  | backgroundColor => exact hfill
  | opacity => exact hopacity
  | borderWidth => exact coherent_fieldsEq hlength Edges.fields fun _ _ => rfl
  | borderColor => exact coherent_fieldsEq hcolor Edges.fields fun _ _ => rfl
  | borderRadius => exact coherent_fieldsEq hlength Corners.fields fun _ _ => rfl
  | position => exact coherent_fieldsEq hlength Offset.fields fun _ _ => rfl
  | zIndex => exact Double.coherent_beq
  | visibility => exact Coherent.of_eq fun _ _ => beq_iff_eq
  | transform => exact Matrix.coherent_deepEq
  | linearGradient => exact LinearGradient.coherent_same
  | font => exact Font.coherent_same
  | responseRegion => exact Rect.coherent_sameAll
  | touchable => exact Coherent.of_eq fun _ _ => beq_iff_eq
  | focusable => exact Coherent.of_eq fun _ _ => beq_iff_eq
  | hoverEffect =>
    rw [unchanged_hoverEffect]
    exact Coherent.of_eq fun _ _ => beq_iff_eq
  | sharedTransition =>
    rw [unchanged_sharedTransition]
    exact Transition.coherent_same.comap TransitionRef.transition

end Reconciler
