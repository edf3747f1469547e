import Reconciler.Proofs.DecimalText
import Reconciler.Proofs.PartByPart
import Reconciler.Proofs.ZeroSign

/-!
# Different values are sent differently

What is sent for a value tells the value, as far as the comparison of its attribute can tell it: if
the arguments for two values are equal, so are the values, part by part
(`Standard.beq_of_args_beq`). The unit of a length can be read from the end of its text and the
number from what is before it, a placeholder is not the text of any length, and rectangles and rows
of matrices are sent in blocks of one size, so what is sent flat can be cut into them again.

A NaN among the numbers that are sent as text is left out: the texts of two NaNs are equal, and the
NaNs are not.
-/

namespace Reconciler

open WireValue

/-! ## Lists -/

section Lists

variable {α β : Type} [BEq α] [BEq β]

/-- Equal lists are equal before a place and after it. -/
theorem append_beq_append {xs ys xs' ys' : List α} (hlen : xs.length = ys.length)
    (h : (xs ++ xs' == ys ++ ys') = true) : (xs == ys) = true ∧ (xs' == ys') = true := by
  induction xs generalizing ys with
  | nil =>
    obtain rfl : ys = [] := List.length_eq_zero_iff.1 hlen.symm
    exact ⟨rfl, h⟩
  | cons x xs ih =>
    cases ys with
    | nil => cases hlen
    | cons y ys =>
      rw [List.cons_append, List.cons_append, List.cons_beq_cons, Bool.and_eq_true] at h
      have htail := ih (Nat.succ.inj hlen) h.2
      rw [List.cons_beq_cons, Bool.and_eq_true]
      exact ⟨⟨h.1, htail.1⟩, htail.2⟩

/-- A flat list can be cut into blocks of one size, if there is something in them. -/
theorem beq_of_flatMap_beq {f : α → List β} {n : Nat} (hpos : 0 < n)
    (hsize : ∀ x, (f x).length = n) (hf : ∀ x y, (f x == f y) = true → (x == y) = true)
    {xs ys : List α} (h : (xs.flatMap f == ys.flatMap f) = true) : (xs == ys) = true := by
  have hblock : ∀ (x : α) (zs : List α), 0 < ((x :: zs).flatMap f).length := by
    intro x zs
    rw [List.flatMap_cons, List.length_append, hsize]
    omega
  induction xs generalizing ys with
  | nil =>
    cases ys with
    | nil => rfl
    | cons y ys => exact absurd (List.length_eq_of_beq h) (Nat.ne_of_lt (hblock y ys))
  | cons x xs ih =>
    cases ys with
    | nil => exact absurd (List.length_eq_of_beq h) (Nat.ne_of_gt (hblock x xs))
    | cons y ys =>
      rw [List.flatMap_cons, List.flatMap_cons] at h
      obtain ⟨hhead, htail⟩ := append_beq_append (by rw [hsize, hsize]) h
      rw [List.cons_beq_cons, Bool.and_eq_true]
      exact ⟨hf x y hhead, ih htail⟩

/-- Lists that are sent element by element are equal if the elements are. -/
theorem beq_of_map_beq {P : α → Prop} {f : α → WireValue}
    (hf : ∀ x y, P x → P y → (f x == f y) = true → (x == y) = true) {xs ys : List α}
    (hxs : ∀ x ∈ xs, P x) (hys : ∀ y ∈ ys, P y) (h : (xs.map f == ys.map f) = true) :
    (xs == ys) = true := by
  induction xs generalizing ys with
  | nil =>
    cases ys with
    | nil => rfl
    | cons y ys => cases h
  | cons x xs ih =>
    cases ys with
    | nil => cases h
    | cons y ys =>
      rw [List.forall_mem_cons] at hxs hys
      rw [List.map_cons, List.map_cons, List.cons_beq_cons, Bool.and_eq_true] at h
      rw [List.cons_beq_cons, Bool.and_eq_true]
      exact ⟨hf x y hxs.1 hys.1 h.1, ih hxs.2 hys.2 h.2⟩

end Lists

/-! ## Optional parts -/

/-- No value of a type is sent as this argument. -/
def Unsent (α : Type) [ToWire α] (absent : WireValue) : Prop :=
  ∀ x : α, (toWire x == absent) = false ∧ (absent == toWire x) = false

section Options

variable {α : Type} [BEq α] [ToWire α] {absent : WireValue} {P : α → Prop}

/-- Optional values that are sent alike are equal if values are, and none is sent as an absent
one. -/
theorem option_beq_of_elim_beq (habsent : Unsent α absent)
    (hα : ∀ x y : α, P x → P y → (toWire x == toWire y) = true → (x == y) = true)
    {o p : Option α} (ho : ∀ x ∈ o, P x) (hp : ∀ y ∈ p, P y)
    (h : (o.elim absent toWire == p.elim absent toWire) = true) : (o == p) = true := by
  cases o with
  | none =>
    cases p with
    | none => rfl
    | some y =>
      have hy : (absent == toWire y) = true := h
      rw [(habsent y).2] at hy
      cases hy
  | some x =>
    cases p with
    | none =>
      have hx : (toWire x == absent) = true := h
      rw [(habsent x).1] at hx
      cases hx
    | some y => exact hα x y (ho x rfl) (hp y rfl) h

/-- Lists of optional values that are sent alike are equal. -/
theorem fields_beq_of_elim_beq (habsent : Unsent α absent)
    (hα : ∀ x y : α, P x → P y → (toWire x == toWire y) = true → (x == y) = true)
    {fs gs : List (Option α)} (hf : ∀ f ∈ fs, ∀ x ∈ f, P x) (hg : ∀ g ∈ gs, ∀ x ∈ g, P x)
    (h : (fs.map (·.elim absent toWire) == gs.map (·.elim absent toWire)) = true) :
    (fs == gs) = true :=
  beq_of_map_beq (fun _ _ => option_beq_of_elim_beq habsent hα) hf hg h

end Options

/-- Optional codes tell optional variants if codes tell variants. -/
theorem eq_of_toWire_map_beq {α : Type} {code : α → Int} (hcode : Function.Injective code)
    {o p : Option α} (h : (toWire (o.map code) == toWire (p.map code)) = true) : o = p := by
  cases o with
  | none =>
    cases p with
    | none => rfl
    | some y => cases h
  | some x =>
    cases p with
    | none => cases h
    | some y =>
      have hxy : code x = code y := (beq_iff_eq (α := Int)).1 h
      rw [hcode hxy]

theorem eq_of_toWire_string_beq {s t : Option String} (h : (toWire s == toWire t) = true) :
    s = t := by
  cases s with
  | none =>
    cases t with
    | none => rfl
    | some t => cases h
  | some s =>
    cases t with
    | none => cases h
    | some t => rw [(beq_iff_eq (α := String)).1 h]

/-! ## Lengths -/

/-- The numbers in a length that are sent as text. -/
def Length.printed : Length → List Double
  | px x => [x]
  | percent x => [x]
  | _ => []

/-- The numbers in lengths that may be absent, as far as they are sent as text. -/
def fieldPrinted (fields : List (Option Length)) : List Double :=
  fields.flatMap fun field => field.toList.flatMap Length.printed

/-- The numbers in a value that are sent as text: those of its lengths in pixels and percent. -/
def Standard.printed (a : Attribute) (v : Standard.Value a) : List Double :=
  fieldPrinted (Standard.lengths a v)

theorem nanFree_of_mem {ls : List (Option Length)} (h : NaNFree (fieldPrinted ls)) :
    ∀ o ∈ ls, ∀ l ∈ o, NaNFree l.printed := by
  intro o ho l hl x hx
  have hinner : x ∈ o.toList.flatMap Length.printed :=
    List.mem_flatMap.2 ⟨l, Option.mem_toList.2 hl, hx⟩
  exact h x (List.mem_flatMap.2 ⟨o, ho, hinner⟩)

/-- Texts differ if their last characters do. -/
theorem ne_of_getLast?_ne {s t : String} (h : s.toList.getLast? ≠ t.toList.getLast?) : s ≠ t := by
  intro heq
  exact h (by rw [heq])

theorem getLast?_text_px (x : Double) : (x.text ++ "px").toList.getLast? = some 'x' := by
  rw [String.toList_append, List.getLast?_append_of_ne_nil _ (by decide)]
  rfl

theorem getLast?_text_percent (x : Double) : (x.text ++ "%").toList.getLast? = some '%' := by
  rw [String.toList_append, List.getLast?_append_of_ne_nil _ (by decide)]
  rfl

/-- Pixels are never written as percent. -/
theorem text_px_ne_text_percent (x y : Double) : x.text ++ "px" ≠ y.text ++ "%" := by
  refine ne_of_getLast?_ne ?_
  rw [getLast?_text_px, getLast?_text_percent]
  decide

/-- Numbers that are written alike in one unit are equal. -/
theorem Double.beq_of_text_append_eq {x y : Double} {unit : String} (hx : x.isNaN = false)
    (hy : y.isNaN = false) (h : x.text ++ unit = y.text ++ unit) : (x == y) = true := by
  have htext : x.text = y.text := (String.append_left_inj unit).1 h
  obtain rfl := Double.text_injective hx hy htext
  exact Double.beq_self_iff.2 hx

namespace Length

/-- Lengths that are sent alike are equal: one unit and one number, or one resource. -/
theorem beq_of_toWire_beq {l m : Length} (hl : NaNFree l.printed) (hm : NaNFree m.printed)
    (h : (toWire l == toWire m) = true) : (l == m) = true := by
  have htext : ∀ {s t : String}, (WireValue.text s == WireValue.text t) = true → s = t := by
    intro s t hst
    simpa using hst
  cases l with
  | vp x =>
    cases m with
    | vp y => exact h
    | px y => cases h
    | percent y => cases h
    | resource s => cases h
  | px x =>
    cases m with
    | vp y => cases h
    | px y =>
      exact Double.beq_of_text_append_eq (nanFree_singleton.1 hl) (nanFree_singleton.1 hm) (htext h)
    | percent y => exact absurd (htext h) (text_px_ne_text_percent x y)
    | resource s => cases h
  | percent x =>
    cases m with
    | vp y => cases h
    | px y => exact absurd (htext h).symm (text_px_ne_text_percent y x)
    | percent y =>
      exact Double.beq_of_text_append_eq (nanFree_singleton.1 hl) (nanFree_singleton.1 hm) (htext h)
    | resource s => cases h
  | resource r =>
    cases m with
    | vp y => cases h
    | px y => cases h
    | percent y => cases h
    | resource s => exact h

theorem unsent_undefined : Unsent Length .undefined := by
  intro l
  cases l <;> exact ⟨rfl, rfl⟩

/-- The placeholder ends in no unit. -/
theorem unsent_placeholder : Unsent Length (.text Rect.placeholder) := by
  have hlast : Rect.placeholder.toList.getLast? = some 'R' := rfl
  have htext : ∀ {s : String}, s.toList.getLast? ≠ some 'R' →
      (WireValue.text s == .text Rect.placeholder) = false ∧
        (WireValue.text Rect.placeholder == .text s) = false := by
    intro s hs
    have hne : s ≠ Rect.placeholder := ne_of_getLast?_ne (by rwa [hlast])
    rw [beq_text, beq_text, beq_eq_false_iff_ne, beq_eq_false_iff_ne]
    exact ⟨hne, hne.symm⟩
  intro l
  cases l with
  | vp x => exact ⟨rfl, rfl⟩
  | px x => exact htext (by rw [getLast?_text_px]; decide)
  | percent x => exact htext (by rw [getLast?_text_percent]; decide)
  | resource r => exact ⟨rfl, rfl⟩

/-- Shapes of lengths that are sent alike are equal, if they list all of their fields. -/
theorem shape_beq_of_toWire_beq {β : Type} [BEq β] (fields : β → List (Option Length))
    (hfields : ∀ v w, (fields v == fields w) = (v == w)) {v w : β}
    (hv : NaNFree (fieldPrinted (fields v))) (hw : NaNFree (fieldPrinted (fields w)))
    (h : ((fields v).map toWire == (fields w).map toWire) = true) : (v == w) = true := by
  rw [map_toWire_eq_elim, map_toWire_eq_elim] at h
  rw [← hfields]
  exact fields_beq_of_elim_beq unsent_undefined (fun _ _ => beq_of_toWire_beq) (nanFree_of_mem hv)
    (nanFree_of_mem hw) h

end Length

/-- Rectangles that are sent alike are equal, in number, order and fields. -/
theorem Rect.beq_of_flatMap_args_beq {rs ss : List Rect}
    (hr : NaNFree (fieldPrinted (rs.flatMap fields)))
    (hs : NaNFree (fieldPrinted (ss.flatMap fields)))
    (h : (rs.flatMap args == ss.flatMap args) = true) : (rs == ss) = true := by
  rw [flatMap_args, flatMap_args] at h
  have hfields : (rs.flatMap fields == ss.flatMap fields) = true :=
    fields_beq_of_elim_beq Length.unsent_placeholder (fun _ _ => Length.beq_of_toWire_beq)
      (nanFree_of_mem hr) (nanFree_of_mem hs) h
  refine beq_of_flatMap_beq (n := 4) (by decide) (fun _ => rfl) ?_ hfields
  intro r s hrs
  rwa [beq_fields] at hrs

/-! ## Other parts -/

/-- Colors that are sent alike are equal: one packed color, one name or one resource. -/
theorem Color.beq_of_toWire_beq {c d : Color} (h : (toWire c == toWire d) = true) :
    (c == d) = true := by
  cases c with
  | argb a =>
    cases d with
    | argb b =>
      have hbits : (a.toNat : Int) = (b.toNat : Int) := (beq_iff_eq (α := Int)).1 h
      obtain rfl := UInt32.toNat_inj.1 (Int.ofNat_inj.1 hbits)
      exact Color.beq_self _
    | named t => cases h
    | resource s => cases h
  | named s =>
    cases d with
    | argb b => cases h
    | named t => exact h
    | resource s => cases h
  | resource r =>
    cases d with
    | argb b => cases h
    | named t => cases h
    | resource s => exact h

theorem Color.unsent_undefined : Unsent Color .undefined := by
  intro c
  cases c <;> exact ⟨rfl, rfl⟩

theorem Edges.beq_of_colors_beq {v w : Edges Color}
    (h : (v.fields.map toWire == w.fields.map toWire) = true) : (v == w) = true := by
  rw [map_toWire_eq_elim, map_toWire_eq_elim] at h
  rw [← Edges.beq_fields]
  exact fields_beq_of_elim_beq (P := fun _ => True) Color.unsent_undefined
    (fun _ _ _ _ => Color.beq_of_toWire_beq) (fun _ _ _ _ => trivial) (fun _ _ _ _ => trivial) h

/-- Amounts that are sent alike are equal: one number or one resource. -/
theorem Amount.beq_of_toWire_beq {m n : Amount} (h : (toWire m == toWire n) = true) :
    (m == n) = true := by
  cases m with
  | value x =>
    cases n with
    | value y => exact h
    | resource s => cases h
  | resource r =>
    cases n with
    | value y => cases h
    | resource s => exact h

/-- Matrices that are sent alike are equal in every entry. -/
theorem Matrix.beq_of_toWire_beq {m n : Matrix} (h : (toWire m == toWire n) = true) :
    (m == n) = true := by
  have hsent : (m.entries.map number == n.entries.map number) = true := by
    rw [← beq_list]
    exact h
  have hentries : (m.entries == n.entries) = true :=
    beq_of_map_beq (P := fun _ => True) (f := number) (fun _ _ _ _ hxy => hxy) (fun _ _ => trivial)
      (fun _ _ => trivial) hsent
  have hrows : (m.rows.toList == n.rows.toList) = true := by
    refine beq_of_flatMap_beq (n := 4) (by decide) (fun _ => Vector.length_toList) ?_ hentries
    intro x y hxy
    rwa [Vector.toList_beq_toList] at hxy
  rw [Vector.toList_beq_toList] at hrows
  exact hrows

theorem Double.unsent_undefined : Unsent Double .undefined := fun _ => ⟨rfl, rfl⟩

theorem GradientDirection.code_injective : Function.Injective GradientDirection.code := by
  intro v w h
  cases v <;> cases w <;> simp [code] at h ⊢

/-- Gradients that are sent alike are equal, in the number, order and parts of their stops too. -/
theorem LinearGradient.beq_of_args_beq {g h : LinearGradient} (hgh : (g.args == h.args) = true) :
    (g == h) = true := by
  have hparts : (g == h) = (g.angle == h.angle && (g.direction == h.direction &&
      (g.stops == h.stops && g.repeating == h.repeating))) := rfl
  simp only [args, List.cons_beq_cons, Bool.and_eq_true, beq_list, beq_bool] at hgh
  rcases hgh with ⟨hangle, hdirection, hstops, hrepeating, -⟩
  have hangle' : (g.angle == h.angle) = true := by
    rw [toWire_eq_elim, toWire_eq_elim] at hangle
    exact option_beq_of_elim_beq (P := fun _ => True) Double.unsent_undefined
      (fun _ _ _ _ hxy => hxy) (fun _ _ => trivial) (fun _ _ => trivial) hangle
  have hdirection' : g.direction = h.direction :=
    eq_of_toWire_map_beq GradientDirection.code_injective hdirection
  have hstops' : (g.stops == h.stops) = true := by
    refine beq_of_map_beq (P := fun _ => True) ?_ (fun _ _ => trivial) (fun _ _ => trivial) hstops
    rintro ⟨c, x⟩ ⟨d, y⟩ - - hst
    have hpair : ((c, x) == (d, y)) = (c == d && x == y) := rfl
    simp only [beq_list, List.cons_beq_cons, Bool.and_eq_true, beq_number] at hst
    rw [hpair, Color.beq_of_toWire_beq hst.1, hst.2.1]
    rfl
  rw [hparts, hangle', hdirection', hstops', hrepeating]
  simp

theorem FontWeight.value_injective : Function.Injective fun w : FontWeight => (w.value : Int) := by
  intro v w h
  cases v <;> cases w <;> simp [value] at h ⊢

theorem FontStyle.code_injective : Function.Injective FontStyle.code := by
  intro v w h
  cases v <;> cases w <;> simp [code] at h ⊢

/-- Fonts that are sent alike are equal. -/
theorem Font.beq_of_args_beq {f g : Font} (hf : ∀ l ∈ f.size, NaNFree l.printed)
    (hg : ∀ l ∈ g.size, NaNFree l.printed) (h : (f.args == g.args) = true) : (f == g) = true := by
  have hparts : (f == g) = (f.size == g.size && (f.weight == g.weight &&
      (f.family == g.family && f.style == g.style))) := rfl
  simp only [args, List.cons_beq_cons, Bool.and_eq_true] at h
  rcases h with ⟨hsize, hweight, hfamily, hstyle, -⟩
  rw [toWire_eq_elim, toWire_eq_elim] at hsize
  have hsize' : (f.size == g.size) = true :=
    option_beq_of_elim_beq Length.unsent_undefined (fun _ _ => Length.beq_of_toWire_beq) hf hg hsize
  have hweight' : f.weight = g.weight := eq_of_toWire_map_beq FontWeight.value_injective hweight
  have hfamily' : f.family = g.family := eq_of_toWire_string_beq hfamily
  have hstyle' : f.style = g.style := eq_of_toWire_map_beq FontStyle.code_injective hstyle
  rw [hparts, hsize', hweight', hfamily', hstyle']
  simp

/-- Transitions that are sent alike are one. -/
theorem Transition.eq_of_args_beq {t u : Transition} (h : (t.args == u.args) = true) : t = u := by
  simp only [args, List.cons_beq_cons, Bool.and_eq_true, beq_text, beq_int, beq_iff_eq] at h
  rcases h with ⟨hid, hduration, hdelay, hz, -⟩
  have hduration' := UInt32.toNat_inj.1 (Int.ofNat_inj.1 hduration)
  have hdelay' := UInt32.toNat_inj.1 (Int.ofNat_inj.1 hdelay)
  have hz' := eq_of_toWire_map_beq (fun _ _ => Int32.toInt_inj.1) hz
  rcases t with ⟨i, d, e, z⟩
  rcases u with ⟨j, d', e', z'⟩
  subst hid hduration' hdelay' hz'
  rfl

theorem Visibility.code_injective : Function.Injective Visibility.code := by
  intro v w h
  cases v <;> cases w <;> simp [code] at h ⊢

theorem HoverEffect.code_injective : Function.Injective HoverEffect.code := by
  intro v w h
  cases v <;> cases w <;> simp [code] at h ⊢

/-! ## Every attribute -/

namespace Standard

/-- Values of one attribute that are sent alike are equal part by part, unless a NaN among their
numbers is sent as text. -/
theorem beq_of_args_beq (a : Attribute) {v w : Value a} (hv : NaNFree (printed a v))
    (hw : NaNFree (printed a w)) (h : (args a v == args a w) = true) : (v == w) = true := by
  have hsingle : ∀ {x y : WireValue}, ([x] == [y]) = true → (x == y) = true := by
    intro x y hxy
    simpa using hxy
  have hlength : ∀ l m : Length, ([some l] == [some m]) = (l == m) := by
    intro l m
    simp
  cases a with
  -- lengths
  | width => exact Length.shape_beq_of_toWire_beq (fun l => [some l]) hlength hv hw h
  | height => exact Length.shape_beq_of_toWire_beq (fun l => [some l]) hlength hv hw h
  | padding => exact Length.shape_beq_of_toWire_beq Inset.fields Inset.beq_fields hv hw h
  | margin => exact Length.shape_beq_of_toWire_beq Inset.fields Inset.beq_fields hv hw h
  | borderWidth => exact Length.shape_beq_of_toWire_beq Edges.fields Edges.beq_fields hv hw h
  | borderRadius => exact Length.shape_beq_of_toWire_beq Corners.fields Corners.beq_fields hv hw h
  | position => exact Length.shape_beq_of_toWire_beq Offset.fields Offset.beq_fields hv hw h
  | font =>
    exact Font.beq_of_args_beq (nanFree_of_mem hv _ (List.mem_singleton_self _))
      (nanFree_of_mem hw _ (List.mem_singleton_self _)) h
  | responseRegion =>
    -- the number of arguments is sent too, and follows from the list of them
    have hflat : (list (v.flatMap Rect.args) == list (w.flatMap Rect.args)) = true :=
      (Bool.and_eq_true_iff.1 h).1
    rw [beq_list] at hflat
    exact Rect.beq_of_flatMap_args_beq hv hw hflat
  -- values that are sent as they are compared
  | layoutWeight => exact hsingle h
  | zIndex => exact hsingle h
  | touchable => exact hsingle h
  | focusable => exact hsingle h
  | backgroundColor => exact Color.beq_of_toWire_beq (hsingle h)
  | opacity => exact Amount.beq_of_toWire_beq (hsingle h)
  | transform => exact Matrix.beq_of_toWire_beq (hsingle h)
  | borderColor => exact Edges.beq_of_colors_beq h
  | linearGradient => exact LinearGradient.beq_of_args_beq h
  -- values that are equal only if they are one
  | visibility =>
    have hcode : Visibility.code v = Visibility.code w := (beq_iff_eq (α := Int)).1 (hsingle h)
    exact (beq_iff_eq (α := Visibility)).2 (Visibility.code_injective hcode)
  | hoverEffect =>
    have hcode : HoverEffect.code v = HoverEffect.code w := (beq_iff_eq (α := Int)).1 (hsingle h)
    exact (beq_iff_eq (α := HoverEffect)).2 (HoverEffect.code_injective hcode)
  | sharedTransition => exact (beq_iff_eq (α := Transition)).2 (Transition.eq_of_args_beq h)

/-- What is sent for two values is equal exactly if they are alike, and the zeros among their
lengths in pixels and percent have the same signs. -/
theorem args_beq_iff (a : Attribute) {v w : Value a} (hv : NaNFree (printed a v))
    (hw : NaNFree (printed a w)) :
    (args a v == args a w) = true ↔ Alike a v w ∧ zeroSigns a v = zeroSigns a w := by
  rw [← beq_iff_alike, ← unchanged_eq_beq]
  constructor
  · intro h
    have hunchanged : unchanged a v w = true := by
      rw [unchanged_eq_beq]
      exact beq_of_args_beq a hv hw h
    refine ⟨hunchanged, (agree_args a v w hunchanged).beq_iff.1 ?_⟩
    rwa [beq_list]
  · rintro ⟨hunchanged, hsigns⟩
    rw [← beq_list]
    exact (agree_args a v w hunchanged).beq_iff.2 hsigns

/-- A value for which the same would be sent as for the committed one is judged unchanged over it:
no two values are sent alike that differ in any of their parts. -/
theorem unchanged_of_args_beq (a : Attribute) (v w : Value a) (hv : NaNFree (printed a v))
    (hw : NaNFree (printed a w)) (h : (args a v == args a w) = true) :
    (policy a).verdict v (some w) = .unchanged ∧ Alike a v w := by
  have hbeq := beq_of_args_beq a hv hw h
  refine ⟨verdict_eq_unchanged_iff.2 ?_, (beq_iff_alike a v w).1 hbeq⟩
  rw [unchanged_eq_beq]
  exact hbeq

/-- The two zeros of virtual pixels are sent alike and are unchanged against each other. The text
for no pixels is not the one for no percent. -/
theorem unchanged_of_args_beq_zeros :
    let pixels : Length := .px ⟨0⟩
    let percent : Length := .percent ⟨0⟩
    let level : Offset := { x := some (.vp ⟨0⟩), y := some pixels }
    let minus : Offset := { x := some (.vp ⟨0x8000000000000000⟩), y := some pixels }
    (args .position level == args .position minus) = true ∧
      (policy .position).verdict level (some minus) = .unchanged ∧
      ¬ (args .width pixels == args .width percent) = true := by
  intro pixels percent level minus
  have hzero : ∀ xs : List Double, xs = [⟨0⟩] → NaNFree xs := by
    rintro xs rfl
    exact nanFree_singleton.2 (by decide)
  have hsent : (args .position level == args .position minus) = true := by decide
  refine ⟨hsent, (unchanged_of_args_beq .position level minus (hzero _ rfl) (hzero _ rfl) hsent).1,
    ?_⟩
  intro h
  have halike : Length.Alike (.px ⟨0⟩) (.percent ⟨0⟩) :=
    (unchanged_of_args_beq .width pixels percent (hzero _ rfl) (hzero _ rfl) h).2
  cases halike

end Standard

end Reconciler
