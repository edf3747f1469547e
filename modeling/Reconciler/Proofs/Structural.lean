import Reconciler.Proofs.Comparison

/-!
# Comparisons are structural

Every attribute compares its values in its own way: by fields, as literals or resources, deeply, or
by an override. All of them come to the same: two values are unchanged against each other when they
are equal part by part (`Standard.unchanged_eq_beq`), numbers as IEEE 754 has it and bags of
parameters by identity.

So the only values that differ from themselves are those with a NaN among their numbers
(`Standard.unchanged_self_iff`). A NaN in a bag of parameters is not looked at.
-/

namespace Reconciler

/-! ## Equal part by part -/

instance (a : Attribute) : BEq (Standard.Value a) :=
  match a with
  | .width => inferInstanceAs (BEq Length)
  | .height => inferInstanceAs (BEq Length)
  | .layoutWeight => inferInstanceAs (BEq Double)
  | .padding => inferInstanceAs (BEq Inset)
  | .margin => inferInstanceAs (BEq Inset)
  | .backgroundColor => inferInstanceAs (BEq Color)
  | .opacity => inferInstanceAs (BEq Amount)
  | .borderWidth => inferInstanceAs (BEq (Edges Length))
  | .borderColor => inferInstanceAs (BEq (Edges Color))
  | .borderRadius => inferInstanceAs (BEq Corners)
  | .position => inferInstanceAs (BEq Offset)
  | .zIndex => inferInstanceAs (BEq Double)
  | .visibility => inferInstanceAs (BEq Visibility)
  | .transform => inferInstanceAs (BEq Matrix)
  | .linearGradient => inferInstanceAs (BEq LinearGradient)
  | .font => inferInstanceAs (BEq Font)
  | .responseRegion => inferInstanceAs (BEq (List Rect))
  | .touchable => inferInstanceAs (BEq Bool)
  | .focusable => inferInstanceAs (BEq Bool)
  | .hoverEffect => inferInstanceAs (BEq HoverEffect)
  | .sharedTransition => ⟨fun (v w : TransitionRef) => v.transition == w.transition⟩

theorem Length.literalOrResourceEq_eq_beq (l m : Length) : literalOrResourceEq l m = (l == m) := by
  cases l <;> cases m <;> rfl

theorem Color.literalOrResourceEq_eq_beq (c d : Color) : literalOrResourceEq c d = (c == d) := by
  cases c <;> cases d <;> rfl

theorem Amount.literalOrResourceEq_eq_beq (m n : Amount) :
    literalOrResourceEq m n = (m == n) := by
  cases m <;> cases n <;> rfl

/-- Optional values are equal as literals or resources when they are part by part, if that is so of
what is in them. -/
theorem literalOrResourceEq_option_eq_beq {α : Type} [HasResource α] [PrimitiveEq α] [BEq α]
    (h : ∀ x y : α, literalOrResourceEq x y = (x == y)) (v w : Option α) :
    literalOrResourceEq v w = (v == w) := by
  cases v with
  | none =>
    cases w with
    | none => rfl
    | some y => cases hy : resource? y <;> simp [literalOrResourceEq, resource?, hy, primitiveEq]
  | some x =>
    cases w with
    | none => cases hx : resource? x <;> simp [literalOrResourceEq, resource?, hx, primitiveEq]
    | some y => exact h x y

/-- Lists of as many fields agree when they are equal part by part, if that is so of the fields. -/
theorem fieldsEq_eq_beq {α : Type} [HasResource α] [PrimitiveEq α] [BEq α]
    (h : ∀ x y : α, literalOrResourceEq x y = (x == y)) (xs ys : List (Option α))
    (hlen : xs.length = ys.length) : fieldsEq xs ys = (xs == ys) := by
  induction xs generalizing ys with
  | nil =>
    obtain rfl : ys = [] := List.length_eq_zero_iff.1 hlen.symm
    rfl
  | cons x xs ih =>
    cases ys with
    | nil => cases hlen
    | cons y ys =>
      have hrest := ih ys (Nat.succ.inj hlen)
      simp only [fieldsEq, List.zip_cons_cons, List.all_cons] at hrest ⊢
      rw [hrest, literalOrResourceEq_option_eq_beq h, List.cons_beq_cons]

/-- Sequences are deeply equal when they are equal part by part, if that is so of their elements. -/
theorem deepSequenceEq_eq_beq {α : Type} [DeepEq α] [BEq α]
    (h : ∀ x y : α, deepEq x y = (x == y)) (xs ys : List α) :
    deepSequenceEq xs ys = (xs == ys) := by
  induction xs generalizing ys with
  | nil => cases ys <;> rfl
  | cons x xs ih =>
    cases ys with
    | nil => rfl
    | cons y ys => rw [deepSequenceEq_cons, h, ih, List.cons_beq_cons]

theorem Matrix.deepEq_eq_beq (m n : Matrix) : deepEq m n = (m == n) := by
  have hrow : ∀ x y : Vector Double 4, deepEq x y = (x == y) := by
    intro x y
    rw [← Vector.toList_beq_toList]
    exact deepSequenceEq_eq_beq (fun _ _ => rfl) x.toList y.toList
  have hrows : (m == n) = (m.rows == n.rows) := rfl
  rw [hrows, ← Vector.toList_beq_toList]
  exact deepSequenceEq_eq_beq hrow m.rows.toList n.rows.toList

/-! ## Shapes with fields -/

/-- A shape that lists all of its fields is compared along them part by part. -/
theorem fieldsEq_shape_eq_beq {α β : Type} [HasResource α] [PrimitiveEq α] [BEq α] [BEq β]
    (h : ∀ x y : α, literalOrResourceEq x y = (x == y)) (fields : β → List (Option α))
    (hlen : ∀ v w, (fields v).length = (fields w).length)
    (hfields : ∀ v w, (fields v == fields w) = (v == w)) (v w : β) :
    fieldsEq (fields v) (fields w) = (v == w) := by
  rw [fieldsEq_eq_beq h _ _ (hlen v w), hfields]

theorem Inset.beq_fields (v w : Inset) : (v.fields == w.fields) = (v == w) := by
  have hparts : (v == w) =
      (v.top == w.top && (v.right == w.right && (v.bottom == w.bottom && v.left == w.left))) := rfl
  simp [fields, hparts]

theorem Edges.beq_fields {α : Type} [BEq α] (v w : Edges α) :
    (v.fields == w.fields) = (v == w) := by
  have hparts : (v == w) =
      (v.left == w.left && (v.right == w.right && (v.top == w.top && v.bottom == w.bottom))) := rfl
  simp [fields, hparts]

theorem Corners.beq_fields (v w : Corners) : (v.fields == w.fields) = (v == w) := by
  have hparts : (v == w) = (v.topLeft == w.topLeft && (v.topRight == w.topRight &&
      (v.bottomLeft == w.bottomLeft && v.bottomRight == w.bottomRight))) := rfl
  simp [fields, hparts]

theorem Offset.beq_fields (v w : Offset) : (v.fields == w.fields) = (v == w) := by
  have hparts : (v == w) = (v.x == w.x && v.y == w.y) := rfl
  simp [fields, hparts]

theorem Rect.beq_fields (v w : Rect) : (v.fields == w.fields) = (v == w) := by
  have hparts : (v == w) =
      (v.x == w.x && (v.y == w.y && (v.width == w.width && v.height == w.height))) := rfl
  simp [fields, hparts]

theorem Rect.same_eq_beq (r s : Rect) : r.same s = (r == s) := by
  exact fieldsEq_shape_eq_beq Length.literalOrResourceEq_eq_beq Rect.fields (fun _ _ => rfl)
    Rect.beq_fields r s

theorem Rect.sameAll_eq_beq (rs ss : List Rect) : Rect.sameAll rs ss = (rs == ss) := by
  induction rs generalizing ss with
  | nil => cases ss <;> rfl
  | cons r rs ih =>
    cases ss with
    | nil => rfl
    | cons s ss =>
      rw [List.cons_beq_cons, ← ih, ← Rect.same_eq_beq]
      simp [sameAll, Bool.and_left_comm]

theorem LinearGradient.same_eq_beq (g h : LinearGradient) : g.same h = (g == h) := by
  have hparts : (g == h) = (g.angle == h.angle && (g.direction == h.direction &&
      (g.stops == h.stops && g.repeating == h.repeating))) := rfl
  have hangle : primitiveEq g.angle h.angle = (g.angle == h.angle) := by
    cases g.angle <;> cases h.angle <;> rfl
  have hstops : deepEq g.stops h.stops = (g.stops == h.stops) := by
    refine deepSequenceEq_eq_beq ?_ g.stops h.stops
    rintro ⟨c, x⟩ ⟨d, y⟩
    have hcolor : deepEq c d = (c == d) := Color.literalOrResourceEq_eq_beq c d
    have hpair : deepEq (c, x) (d, y) = (deepEq c d && deepEq x y) := rfl
    rw [hpair, hcolor]
    rfl
  rw [same, hangle, hstops, hparts, Bool.and_assoc, Bool.and_comm (g.repeating == h.repeating)]
  simp only [Bool.and_assoc]

theorem Font.same_eq_beq (f g : Font) : f.same g = (f == g) := by
  have hparts : (f == g) = (f.size == g.size && (f.weight == g.weight &&
      (f.family == g.family && f.style == g.style))) := rfl
  rw [same, literalOrResourceEq_option_eq_beq Length.literalOrResourceEq_eq_beq, hparts]
  simp only [Bool.and_assoc]

theorem Transition.same_eq_beq (t u : Transition) : t.same u = (t == u) := by
  rw [Bool.eq_iff_iff]
  rcases t with ⟨i, o⟩
  rcases u with ⟨j, n⟩
  simp [same]

/-- The comparison of every attribute is equality part by part. -/
theorem Standard.unchanged_eq_beq (a : Attribute) (v w : Standard.Value a) :
    Standard.unchanged a v w = (v == w) := by
  have hlength := Length.literalOrResourceEq_eq_beq
  cases a with
  | width => exact hlength v w
  | height => exact hlength v w
  | layoutWeight => rfl
  | padding =>
    exact fieldsEq_shape_eq_beq hlength Inset.fields (fun _ _ => rfl) Inset.beq_fields v w
  | margin =>
    exact fieldsEq_shape_eq_beq hlength Inset.fields (fun _ _ => rfl) Inset.beq_fields v w
  | backgroundColor => exact Color.literalOrResourceEq_eq_beq v w
  | opacity => exact Amount.literalOrResourceEq_eq_beq v w
  | borderWidth =>
    exact fieldsEq_shape_eq_beq hlength Edges.fields (fun _ _ => rfl) Edges.beq_fields v w
  | borderColor =>
    exact fieldsEq_shape_eq_beq Color.literalOrResourceEq_eq_beq Edges.fields (fun _ _ => rfl)
      Edges.beq_fields v w
  | borderRadius =>
    exact fieldsEq_shape_eq_beq hlength Corners.fields (fun _ _ => rfl) Corners.beq_fields v w
  | position =>
    exact fieldsEq_shape_eq_beq hlength Offset.fields (fun _ _ => rfl) Offset.beq_fields v w
  | zIndex => rfl
  | visibility => rfl
  | transform => exact Matrix.deepEq_eq_beq v w
  | linearGradient => exact LinearGradient.same_eq_beq v w
  | font => exact Font.same_eq_beq v w
  | responseRegion => exact Rect.sameAll_eq_beq v w
  | touchable => rfl
  | focusable => rfl
  | hoverEffect =>
    rw [unchanged_hoverEffect]
    rfl
  | sharedTransition =>
    rw [unchanged_sharedTransition]
    exact Transition.same_eq_beq v.transition w.transition

/-! ## Values that equal themselves -/

/-- The numbers in a length. Parameters of a resource are not among them. -/
def Length.numbers : Length → List Double
  | vp x => [x]
  | px x => [x]
  | percent x => [x]
  | resource _ => []

/-- The numbers in an amount. -/
def Amount.numbers : Amount → List Double
  | value x => [x]
  | resource _ => []

/-- The numbers in lengths that may be absent. -/
def fieldNumbers (fields : List (Option Length)) : List Double :=
  fields.flatMap fun field => field.toList.flatMap Length.numbers

/-- The numbers in a value. Parameters of resources are not among them. -/
def Standard.numbers : (a : Attribute) → Standard.Value a → List Double
  | .width => fun (v : Length) => v.numbers
  | .height => fun (v : Length) => v.numbers
  | .layoutWeight => fun (v : Double) => [v]
  | .padding => fun (v : Inset) => fieldNumbers v.fields
  | .margin => fun (v : Inset) => fieldNumbers v.fields
  | .opacity => fun (v : Amount) => v.numbers
  | .borderWidth => fun (v : Edges Length) => fieldNumbers v.fields
  | .borderRadius => fun (v : Corners) => fieldNumbers v.fields
  | .position => fun (v : Offset) => fieldNumbers v.fields
  | .zIndex => fun (v : Double) => [v]
  | .transform => fun (v : Matrix) => v.entries
  | .linearGradient => fun (v : LinearGradient) => v.angle.toList ++ v.stops.map (·.2)
  | .font => fun (v : Font) => v.size.toList.flatMap Length.numbers
  | .responseRegion => fun (v : List Rect) => v.flatMap fun r => fieldNumbers r.fields
  | _ => fun _ => []

/-- None of some numbers is a NaN. -/
def NaNFree (xs : List Double) : Prop := ∀ x ∈ xs, x.isNaN = false

@[simp] theorem nanFree_nil : NaNFree [] := by simp [NaNFree]

@[simp] theorem nanFree_singleton {x : Double} : NaNFree [x] ↔ x.isNaN = false := by
  simp [NaNFree]

@[simp] theorem nanFree_append {xs ys : List Double} :
    NaNFree (xs ++ ys) ↔ NaNFree xs ∧ NaNFree ys := by
  simp [NaNFree, or_imp, forall_and]

theorem Double.beq_self_iff {x : Double} : (x == x) = true ↔ x.isNaN = false := by
  simp [Double.beq_iff]

theorem Length.beq_self_iff {l : Length} : (l == l) = true ↔ NaNFree l.numbers := by
  cases l with
  | vp x => exact Double.beq_self_iff.trans nanFree_singleton.symm
  | px x => exact Double.beq_self_iff.trans nanFree_singleton.symm
  | percent x => exact Double.beq_self_iff.trans nanFree_singleton.symm
  | resource r => exact iff_of_true r.beq_self nanFree_nil

theorem Color.beq_self (c : Color) : (c == c) = true := by
  cases c with
  | argb a => exact beq_self_eq_true a
  | named s => exact beq_self_eq_true s
  | resource r => exact r.beq_self

theorem Amount.beq_self_iff {m : Amount} : (m == m) = true ↔ NaNFree m.numbers := by
  cases m with
  | value x => exact Double.beq_self_iff.trans nanFree_singleton.symm
  | resource r => exact iff_of_true r.beq_self nanFree_nil

section Containers

variable {α : Type} [BEq α] {numbers : α → List Double}

theorem option_beq_self_iff (h : ∀ x : α, (x == x) = true ↔ NaNFree (numbers x))
    (o : Option α) : (o == o) = true ↔ NaNFree (o.toList.flatMap numbers) := by
  cases o <;> simp [h]

theorem list_beq_self_iff (h : ∀ x : α, (x == x) = true ↔ NaNFree (numbers x))
    (xs : List α) : (xs == xs) = true ↔ NaNFree (xs.flatMap numbers) := by
  induction xs with
  | nil => simp
  | cons x xs ih => simp [h, ih]

end Containers

theorem fields_beq_self_iff (fields : List (Option Length)) :
    (fields == fields) = true ↔ NaNFree (fieldNumbers fields) :=
  list_beq_self_iff (option_beq_self_iff fun _ => Length.beq_self_iff) fields

/-- A shape that lists all of its lengths equals itself if they do. -/
theorem shape_beq_self_iff {β : Type} [BEq β] (fields : β → List (Option Length))
    (hfields : ∀ v w, (fields v == fields w) = (v == w)) (v : β) :
    (v == v) = true ↔ NaNFree (fieldNumbers (fields v)) := by
  rw [← hfields]
  exact fields_beq_self_iff (fields v)

theorem doubles_beq_self_iff (xs : List Double) : (xs == xs) = true ↔ NaNFree xs := by
  simpa using list_beq_self_iff (fun _ => Double.beq_self_iff.trans nanFree_singleton.symm) xs

theorem Matrix.beq_self_iff {m : Matrix} : (m == m) = true ↔ NaNFree m.entries := by
  have hrow : ∀ x : Vector Double 4, (x == x) = true ↔ NaNFree x.toList := by
    intro x
    rw [← Vector.toList_beq_toList]
    exact doubles_beq_self_iff x.toList
  have hrows : (m == m) = (m.rows == m.rows) := rfl
  rw [hrows, ← Vector.toList_beq_toList]
  exact list_beq_self_iff hrow m.rows.toList

theorem Edges.beq_self_colors (e : Edges Color) : (e == e) = true := by
  have hcolor : ∀ o : Option Color, (o == o) = true := by
    intro o
    cases o with
    | none => rfl
    | some c => exact c.beq_self
  rw [← Edges.beq_fields]
  simp [fields, hcolor]

theorem LinearGradient.beq_self_iff {g : LinearGradient} :
    (g == g) = true ↔ NaNFree (g.angle.toList ++ g.stops.map (·.2)) := by
  have hparts : (g == g) = (g.angle == g.angle && (g.direction == g.direction &&
      (g.stops == g.stops && g.repeating == g.repeating))) := rfl
  have hangle : (g.angle == g.angle) = true ↔ NaNFree g.angle.toList := by
    cases g.angle <;> simp [Double.beq_self_iff]
  have hstop : ∀ stop : Color × Double, (stop == stop) = true ↔ NaNFree [stop.2] := by
    rintro ⟨c, x⟩
    have hpair : ((c, x) == (c, x)) = (c == c && x == x) := rfl
    simp [hpair, c.beq_self, Double.beq_self_iff]
  have hstops : (g.stops == g.stops) = true ↔ NaNFree (g.stops.map (·.2)) := by
    rw [List.map_eq_flatMap]
    exact list_beq_self_iff hstop g.stops
  rw [hparts, nanFree_append]
  simp [hangle, hstops]

theorem Font.beq_self_iff {f : Font} :
    (f == f) = true ↔ NaNFree (f.size.toList.flatMap Length.numbers) := by
  have hparts : (f == f) = (f.size == f.size && (f.weight == f.weight &&
      (f.family == f.family && f.style == f.style))) := rfl
  rw [hparts, ← option_beq_self_iff (fun _ => Length.beq_self_iff) f.size]
  simp

theorem Rect.beq_self_list_iff (rs : List Rect) :
    (rs == rs) = true ↔ NaNFree (rs.flatMap fun r => fieldNumbers r.fields) :=
  list_beq_self_iff (shape_beq_self_iff Rect.fields Rect.beq_fields) rs

/-- A value is unchanged against itself exactly if there is no NaN among its numbers. -/
theorem Standard.unchanged_self_iff (a : Attribute) (v : Standard.Value a) :
    Standard.unchanged a v v = true ↔ NaNFree (Standard.numbers a v) := by
  rw [Standard.unchanged_eq_beq]
  cases a with
  | width => exact Length.beq_self_iff
  | height => exact Length.beq_self_iff
  | layoutWeight => exact Double.beq_self_iff.trans nanFree_singleton.symm
  | padding => exact shape_beq_self_iff Inset.fields Inset.beq_fields v
  | margin => exact shape_beq_self_iff Inset.fields Inset.beq_fields v
  | backgroundColor => exact iff_of_true (Color.beq_self v) nanFree_nil
  | opacity => exact Amount.beq_self_iff
  | borderWidth => exact shape_beq_self_iff Edges.fields Edges.beq_fields v
  | borderColor => exact iff_of_true (Edges.beq_self_colors v) nanFree_nil
  | borderRadius => exact shape_beq_self_iff Corners.fields Corners.beq_fields v
  | position => exact shape_beq_self_iff Offset.fields Offset.beq_fields v
  | zIndex => exact Double.beq_self_iff.trans nanFree_singleton.symm
  | visibility => exact iff_of_true (@beq_self_eq_true Visibility _ _ v) nanFree_nil
  | transform => exact Matrix.beq_self_iff
  | linearGradient => exact LinearGradient.beq_self_iff
  | font => exact Font.beq_self_iff
  | responseRegion => exact Rect.beq_self_list_iff v
  | touchable => exact iff_of_true (@beq_self_eq_true Bool _ _ v) nanFree_nil
  | focusable => exact iff_of_true (@beq_self_eq_true Bool _ _ v) nanFree_nil
  | hoverEffect => exact iff_of_true (@beq_self_eq_true HoverEffect _ _ v) nanFree_nil
  | sharedTransition =>
    exact iff_of_true (beq_self_eq_true (TransitionRef.transition v)) nanFree_nil

end Reconciler
