import Reconciler.Proofs.WireEquality

/-!
# What skipping a write can lose

A value that is found unchanged is not sent. The peer then keeps arguments that may differ from the
ones that would have been sent in one way only: in the sign of a length of zero pixels or percent.
Numbers are compared as IEEE 754 has it, so the two zeros are equal, but lengths in these units are
sent as text, and the text of a zero has its sign.

`Agree` carries both halves of this through the lists of arguments: two values that are found
unchanged are sent alike exactly if the zeros among such lengths have the same signs
(`Standard.agree_args`).
-/

namespace Reconciler

/-! ## The signs of zeros -/

/-- The sign of a length of zero pixels or percent. Other lengths have none that could be lost. -/
def Length.zeroSign? : Length → Option Bool
  | .px x => if x.isZero then some x.isNegative else none
  | .percent x => if x.isZero then some x.isNegative else none
  | _ => none

/-- The signs of the zeros among optional lengths. -/
def zeroSignsOf (ls : List (Option Length)) : List (Option Bool) :=
  ls.map (·.bind Length.zeroSign?)

/-- The lengths in a value, in the order in which they are sent. -/
def Standard.lengths : (a : Attribute) → Standard.Value a → List (Option Length)
  | .width => fun (v : Length) => [some v]
  | .height => fun (v : Length) => [some v]
  | .padding => fun (v : Inset) => v.fields
  | .margin => fun (v : Inset) => v.fields
  | .borderWidth => fun (v : Edges Length) => v.fields
  | .borderRadius => fun (v : Corners) => v.fields
  | .position => fun (v : Offset) => v.fields
  | .font => fun (v : Font) => [v.size]
  | .responseRegion => fun (v : List Rect) => v.flatMap Rect.fields
  | _ => fun _ => []

/-- The signs of the zeros among the lengths in a value. -/
def Standard.zeroSigns (a : Attribute) (v : Standard.Value a) : List (Option Bool) :=
  zeroSignsOf (Standard.lengths a v)

namespace WireValue

mutual
/-- An argument without the signs of zero lengths. -/
def unsigned : WireValue → WireValue
  | text s => text (if s = "-0px" then "0px" else if s = "-0%" then "0%" else s)
  | list xs => list (unsignedAll xs)
  | x => x

/-- Arguments without the signs of zero lengths. -/
def unsignedAll : List WireValue → List WireValue
  | [] => []
  | x :: xs => unsigned x :: unsignedAll xs
end

mutual
theorem unsigned_beq : ∀ x y : WireValue, (x == y) = true → (unsigned x == unsigned y) = true
  | list xs, list ys, h => by
    rw [beq_list] at h
    rw [unsigned, unsigned, beq_list]
    exact unsignedAll_beq xs ys h
  | text s, text t, h => by
    obtain rfl : s = t := by simpa using h
    simp [unsigned]
  | undefined, undefined, h => h
  | bool _, bool _, h => h
  | int _, int _, h => h
  | number _, number _, h => h
  | resource _, resource _, h => h

theorem unsignedAll_beq :
    ∀ xs ys : List WireValue, (xs == ys) = true → (unsignedAll xs == unsignedAll ys) = true
  | [], [], h => h
  | x :: xs, y :: ys, h => by
    rw [List.cons_beq_cons, Bool.and_eq_true] at h
    rw [unsignedAll, unsignedAll, List.cons_beq_cons, Bool.and_eq_true]
    exact ⟨unsigned_beq x y h.1, unsignedAll_beq xs ys h.2⟩
end

end WireValue

open WireValue

/-! ## Arguments that differ in such signs alone -/

/-- Two arguments that are equal up to the signs of zero lengths, and equal exactly under a
condition. -/
structure Agree (P : Prop) (x y : WireValue) : Prop where
  beq_iff : (x == y) = true ↔ P
  unsigned : (unsigned x == unsigned y) = true

namespace Agree

variable {P Q : Prop} {x y : WireValue} {xs ys : List WireValue}

theorem of_beq (h : (x == y) = true) (hP : P) : Agree P x y :=
  ⟨iff_of_true h hP, unsigned_beq x y h⟩

theorem congr (h : Agree P x y) (hPQ : P ↔ Q) : Agree Q x y := ⟨h.beq_iff.trans hPQ, h.unsigned⟩

theorem cons (h : Agree P x y) (hs : Agree Q (list xs) (list ys)) :
    Agree (P ∧ Q) (list (x :: xs)) (list (y :: ys)) := by
  constructor
  · have htail := hs.beq_iff
    rw [beq_list] at htail ⊢
    rw [List.cons_beq_cons, Bool.and_eq_true, h.beq_iff, htail]
  · have htail := hs.unsigned
    simp only [WireValue.unsigned, unsignedAll, beq_list] at htail ⊢
    rw [List.cons_beq_cons, Bool.and_eq_true]
    exact ⟨h.unsigned, htail⟩

end Agree

/-- The text of a zero is its sign and a digit. -/
theorem Double.text_of_isZero {x : Double} (h : x.isZero = true) :
    x.text = if x.isNegative then "-0" else "0" := by
  have hmagnitude : x.magnitude = 0 := by simpa [Double.isZero] using h
  have hnan : x.isNaN = false := by simp [Double.isNaN, hmagnitude]
  have hinfinite : x.isInfinite = false := by
    simp [Double.isInfinite, hmagnitude, Double.infinityBits]
  cases hsign : x.isNegative <;> simp [Double.text, hnan, hinfinite, h, hsign]

/-- Equal numbers of pixels or percent are sent alike, unless they are zeros of different signs. -/
theorem Double.agree_text {x y : Double} (h : (x == y) = true) {unit : String}
    (hunit : unit = "px" ∨ unit = "%") :
    Agree ((if x.isZero then some x.isNegative else none) =
        (if y.isZero then some y.isNegative else none))
      (.text (x.text ++ unit)) (.text (y.text ++ unit)) := by
  rcases (Double.beq_iff.1 h).2.2 with rfl | ⟨hx, hy⟩
  · exact .of_beq (by simp) rfl
  · rw [Double.text_of_isZero hx, Double.text_of_isZero hy, if_pos hx, if_pos hy]
    constructor
    · rcases hunit with rfl | rfl <;> cases x.isNegative <;> cases y.isNegative <;> decide
    · rcases hunit with rfl | rfl <;> cases x.isNegative <;> cases y.isNegative <;>
        simp [WireValue.unsigned]

theorem Length.agree {l m : Length} (h : literalOrResourceEq l m = true) :
    Agree (l.zeroSign? = m.zeroSign?) (toWire l) (toWire m) := by
  rcases literalOrResourceEq_iff.1 h with ⟨r, s, hr, hs, hrs⟩ | ⟨-, -, heq⟩
  · cases l <;> cases hr
    cases m <;> cases hs
    exact .of_beq hrs rfl
  · rcases Length.primitiveEq_iff.1 heq with ⟨x, y, hxy, ⟨rfl, rfl⟩ | ⟨rfl, rfl⟩ | ⟨rfl, rfl⟩⟩
    · exact .of_beq hxy rfl
    · exact Double.agree_text hxy (.inl rfl)
    · exact Double.agree_text hxy (.inr rfl)

/-- A field is sent alike, whatever is sent for one without a value. -/
theorem agree_field {absent : WireValue} (habsent : (absent == absent) = true)
    {f g : Option Length} (h : literalOrResourceEq f g = true) :
    Agree (f.bind Length.zeroSign? = g.bind Length.zeroSign?) (f.elim absent toWire)
      (g.elim absent toWire) := by
  rcases literalOrResourceEq_option_iff.1 h with ⟨rfl, rfl⟩ | ⟨l, m, rfl, rfl, hlm⟩
  · exact .of_beq habsent rfl
  · exact Length.agree hlm

theorem agree_fields {absent : WireValue} (habsent : (absent == absent) = true)
    {fs gs : List (Option Length)}
    (h : List.Forall₂ (fun f g => literalOrResourceEq f g = true) fs gs) :
    Agree (zeroSignsOf fs = zeroSignsOf gs) (list (fs.map (·.elim absent toWire)))
      (list (gs.map (·.elim absent toWire))) := by
  induction h with
  | nil => exact .of_beq rfl rfl
  | cons hfg _ ih =>
    refine ((agree_field habsent hfg).cons ih).congr ?_
    simp [zeroSignsOf]

theorem toWire_eq_elim {α : Type} [ToWire α] (f : Option α) :
    toWire f = f.elim .undefined toWire := by
  cases f <;> rfl

theorem map_toWire_eq_elim {α : Type} [ToWire α] (fs : List (Option α)) :
    fs.map toWire = fs.map (·.elim .undefined toWire) :=
  List.map_congr_left fun f _ => toWire_eq_elim f

/-- Fields that are not set are mostly sent as absent. -/
theorem agree_toWire_fields {fs gs : List (Option Length)}
    (h : List.Forall₂ (fun f g => literalOrResourceEq f g = true) fs gs) :
    Agree (zeroSignsOf fs = zeroSignsOf gs) (list (fs.map toWire)) (list (gs.map toWire)) := by
  rw [map_toWire_eq_elim, map_toWire_eq_elim]
  exact agree_fields rfl h

/-- Every rectangle is sent as four arguments. -/
theorem Rect.length_flatMap_args (rs : List Rect) :
    (rs.flatMap Rect.args).length = 4 * rs.length := by
  induction rs with
  | nil => rfl
  | cons r rs ih =>
    have hfour : r.args.length = 4 := rfl
    rw [List.flatMap_cons, List.length_append, ih, List.length_cons, hfour]
    omega

/-- Rectangles are sent field by field. -/
theorem Rect.flatMap_args (rs : List Rect) :
    rs.flatMap Rect.args =
      (rs.flatMap Rect.fields).map (·.elim (.text Rect.placeholder) toWire) := by
  have hfield : Rect.fieldArg = fun f => f.elim (.text Rect.placeholder) toWire := by
    funext f
    cases f <;> rfl
  rw [List.map_flatMap, ← hfield]
  rfl

/-- The fields of rectangles that are not set are sent as placeholders. -/
theorem agree_rects {rs ss : List Rect} (h : Rect.sameAll rs ss = true) :
    Agree (zeroSignsOf (rs.flatMap Rect.fields) = zeroSignsOf (ss.flatMap Rect.fields))
      (list (rs.flatMap Rect.args)) (list (ss.flatMap Rect.args)) := by
  have hfields : List.Forall₂ (fun f g : Option Length => literalOrResourceEq f g = true)
      (rs.flatMap Rect.fields) (ss.flatMap Rect.fields) :=
    List.rel_flatMap (Rect.sameAll_iff.1 h) fun r s hrs => (fieldsEq_iff (by rfl)).1 hrs
  rw [Rect.flatMap_args, Rect.flatMap_args]
  exact agree_fields (beq_self_eq_true Rect.placeholder) hfields

theorem agree_font (f g : Font) (h : f.same g = true) :
    Agree (zeroSignsOf [f.size] = zeroSignsOf [g.size]) (list f.args) (list g.args) := by
  simp only [Font.same, Bool.and_eq_true, beq_iff_eq] at h
  rcases h with ⟨⟨⟨hsize, hweight⟩, hfamily⟩, hstyle⟩
  -- the size may be a zero, the rest is equal and has no numbers in it
  have hfirst := agree_field beq_undefined hsize
  rw [← toWire_eq_elim, ← toWire_eq_elim] at hfirst
  have hrest : (list f.args.tail == list g.args.tail) = true := by
    simp [Font.args, hweight, hfamily, hstyle, toWire_int_beq_self, toWire_string_beq_self]
  refine (hfirst.cons (.of_beq hrest trivial)).congr ?_
  simp [zeroSignsOf]

/-- The arguments of a region are its fields, and how many of them there are. -/
theorem agree_region (rs ss : List Rect) (h : Rect.sameAll rs ss = true) :
    Agree (zeroSignsOf (rs.flatMap Rect.fields) = zeroSignsOf (ss.flatMap Rect.fields))
      (list [list (rs.flatMap Rect.args), int (rs.flatMap Rect.args).length])
      (list [list (ss.flatMap Rect.args), int (ss.flatMap Rect.args).length]) := by
  have hlength : rs.length = ss.length := (Rect.sameAll_iff.1 h).length_eq
  have hcount : (list [int (rs.flatMap Rect.args).length] ==
      list [int (ss.flatMap Rect.args).length]) = true := by
    rw [Rect.length_flatMap_args, Rect.length_flatMap_args, hlength]
    simp
  have hregion := (agree_rects h).cons (.of_beq hcount trivial)
  exact hregion.congr (iff_of_eq (and_true _))

namespace Standard

/-- What is found unchanged would be sent alike, but for the signs of zero lengths. -/
theorem agree_args (a : Attribute) (v w : Value a) (h : unchanged a v w = true) :
    Agree (zeroSigns a v = zeroSigns a w) (list (args a v)) (list (args a w)) := by
  have hsingle : ∀ {x y : WireValue}, (x == y) = true → (list [x] == list [y]) = true := by
    intro x y hxy
    simp [hxy]
  have hlength : ∀ {l m : Length}, literalOrResourceEq l m = true →
      Agree (zeroSignsOf [some l] = zeroSignsOf [some m]) (list [toWire l]) (list [toWire m]) := by
    intro l m hlm
    exact agree_toWire_fields
      (.cons (literalOrResourceEq_option_iff.2 (.inr ⟨l, m, rfl, rfl, hlm⟩)) .nil)
  cases a with
  -- lengths
  | width => exact hlength h
  | height => exact hlength h
  | padding => exact agree_toWire_fields ((fieldsEq_iff (by rfl)).1 h)
  | margin => exact agree_toWire_fields ((fieldsEq_iff (by rfl)).1 h)
  | borderWidth => exact agree_toWire_fields ((fieldsEq_iff (by rfl)).1 h)
  | borderRadius => exact agree_toWire_fields ((fieldsEq_iff (by rfl)).1 h)
  | position => exact agree_toWire_fields ((fieldsEq_iff (by rfl)).1 h)
  | font => exact agree_font v w h
  | responseRegion => exact agree_region v w h
  -- values that are sent as they are compared
  | layoutWeight => exact .of_beq (hsingle h) rfl
  | zIndex => exact .of_beq (hsingle h) rfl
  | touchable => exact .of_beq (hsingle h) rfl
  | focusable => exact .of_beq (hsingle h) rfl
  | backgroundColor => exact .of_beq (hsingle (Color.toWire_beq v w h)) rfl
  | opacity => exact .of_beq (hsingle (Amount.toWire_beq v w h)) rfl
  | transform => exact .of_beq (hsingle (Matrix.toWire_beq v w h)) rfl
  | borderColor =>
    refine .of_beq ?_ rfl
    rw [beq_list]
    exact map_beq_map (toWire_option_beq Color.toWire_beq) ((fieldsEq_iff (by rfl)).1 h)
  | linearGradient =>
    refine .of_beq ?_ rfl
    rw [beq_list]
    exact LinearGradient.args_beq v w h
  -- values that agree only if they are one
  | visibility =>
    obtain rfl : v = w := (beq_iff_eq (α := Visibility)).1 h
    exact .of_beq (hsingle (beq_self_eq_true (Visibility.code v))) rfl
  | hoverEffect =>
    rw [unchanged_hoverEffect] at h
    obtain rfl : v = w := (beq_iff_eq (α := HoverEffect)).1 h
    exact .of_beq (hsingle (beq_self_eq_true (HoverEffect.code v))) rfl
  | sharedTransition =>
    rw [unchanged_sharedTransition] at h
    refine .of_beq ?_ rfl
    rw [beq_list]
    exact Transition.args_beq _ _ h

/-- What is found unchanged would be sent alike exactly if the zeros among its lengths in pixels and
percent have the same signs. Otherwise nothing but these signs would differ. -/
theorem args_beq_iff_of_unchanged (a : Attribute) (v w : Value a)
    (h : (policy a).verdict v (some w) = .unchanged) :
    ((args a v == args a w) = true ↔ zeroSigns a v = zeroSigns a w) ∧
      (unsignedAll (args a v) == unsignedAll (args a w)) = true := by
  have hagree := agree_args a v w (verdict_eq_unchanged_iff.1 h)
  constructor
  · rw [← hagree.beq_iff, beq_list]
  · have hunsigned := hagree.unsigned
    rwa [unsigned, unsigned, beq_list] at hunsigned

/-- A width of minus zero pixels is not sent over one of zero pixels, though the text for it is
another one. -/
theorem not_args_beq_of_unchanged :
    ¬ ∀ (a : Attribute) (v w : Value a),
      (policy a).verdict v (some w) = .unchanged → (args a v == args a w) = true := by
  intro h
  have hwidth := h .width (Length.px ⟨0x8000000000000000⟩) (Length.px ⟨0⟩) (by decide)
  revert hwidth
  decide

/-- The texts for the two zeros differ, because their signs do, and in nothing else. -/
theorem args_beq_iff_of_unchanged_zero_width :
    (args .width (Length.px ⟨0x8000000000000000⟩) == args .width (Length.px ⟨0⟩)) = false ∧
      (unsignedAll (args .width (Length.px ⟨0x8000000000000000⟩)) ==
        unsignedAll (args .width (Length.px ⟨0⟩))) = true := by
  have h := args_beq_iff_of_unchanged .width (Length.px ⟨0x8000000000000000⟩) (Length.px ⟨0⟩)
    (by decide)
  refine ⟨?_, h.2⟩
  have hsigns : zeroSigns .width (Length.px ⟨0x8000000000000000⟩) ≠
      zeroSigns .width (Length.px ⟨0⟩) := by decide
  rw [← Bool.not_eq_true, h.1]
  exact hsigns

end Standard

end Reconciler
