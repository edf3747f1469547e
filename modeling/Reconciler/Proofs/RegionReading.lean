import Reconciler.Proofs.Distinct

/-!
# Response regions are read back

A response region is sent as one flat list, four arguments for each rectangle, and the length of
that list. A field that is not set is sent as a placeholder. The placeholder is a text, as lengths
in pixels and percent are, and it is the text of none of them (`Length.toWire_ne_placeholder`). So
the list can be cut into rectangles again: `Standard.readRegion?` finds out of the arguments how
many there are, in what order, which of their fields are set, and what was sent for these
(`Standard.readRegion?_args`).
-/

namespace Reconciler

open WireValue

/-- What is sent for a length is never the placeholder. -/
theorem Length.toWire_ne_placeholder (l : Length) : toWire l ≠ .text Rect.placeholder := by
  intro h
  have hsame := (Length.unsent_placeholder l).1
  rw [h, beq_text, beq_self_eq_true] at hsame
  cases hsame

/-- Of a flat list of blocks of one size, each block is found at its place. -/
theorem take_drop_flatMap {α β : Type} {f : α → List β} {n : Nat} (hsize : ∀ x, (f x).length = n)
    (xs : List α) (i : Nat) (h : i < xs.length) :
    ((xs.flatMap f).drop (n * i)).take n = f xs[i] := by
  induction xs generalizing i with
  | nil => cases h
  | cons x xs ih =>
    cases i with
    | zero => simp [← hsize x]
    | succ i =>
      have hplace : n * (i + 1) = (f x).length + n * i := by rw [hsize, Nat.mul_succ, Nat.add_comm]
      rw [List.flatMap_cons, hplace, List.drop_length_add_append, List.getElem_cons_succ]
      exact ih i (Nat.lt_of_succ_lt_succ h)

/-- A rectangle as it is found among arguments: what is sent for each field that is set. -/
structure SentRect where
  x : Option WireValue
  y : Option WireValue
  width : Option WireValue
  height : Option WireValue

namespace Rect

/-- What is sent for the fields of a rectangle that are set. -/
def sent (r : Rect) : SentRect where
  x := r.x.map toWire
  y := r.y.map toWire
  width := r.width.map toWire
  height := r.height.map toWire

/-- The placeholder is sent for a field that is not set, and for no other. -/
theorem fieldArg_eq_placeholder_iff {f : Option Length} :
    fieldArg f = .text placeholder ↔ f = none := by
  cases f with
  | none => exact iff_of_true rfl rfl
  | some l => exact iff_of_false l.toWire_ne_placeholder (Option.some_ne_none l)

end Rect

namespace Standard

/-! ## The reader -/

/-- An argument for a field, unless it is the placeholder. -/
def readField? : WireValue → Option WireValue
  | .text s => if s = Rect.placeholder then none else some (.text s)
  | x => some x

/-- The rectangles in a flat list, four arguments each, if it can be cut so. -/
def readRects? : List WireValue → Option (List SentRect)
  | [] => some []
  | x :: y :: width :: height :: rest =>
    (readRects? rest).map
      (⟨readField? x, readField? y, readField? width, readField? height⟩ :: ·)
  | _ => none

/-- The rectangles of a response region: a flat list of arguments, and its length. -/
def readRegion? : List WireValue → Option (List SentRect)
  | [.list flat, .int n] => if n = flat.length then readRects? flat else none
  | _ => none

theorem readField?_of_ne {x : WireValue} (h : x ≠ .text Rect.placeholder) :
    readField? x = some x := by
  unfold readField?
  split
  · rename_i s
    exact if_neg fun hs => h (congrArg WireValue.text hs)
  · rfl

/-- What is sent for a field is read as such if the field is set. -/
theorem readField?_fieldArg (f : Option Length) : readField? (Rect.fieldArg f) = f.map toWire := by
  cases f with
  | none => simp [Rect.fieldArg, readField?]
  | some l => exact readField?_of_ne l.toWire_ne_placeholder

theorem readRects?_flatMap_args (rs : List Rect) :
    readRects? (rs.flatMap Rect.args) = some (rs.map Rect.sent) := by
  induction rs with
  | nil => rfl
  | cons r rs ih =>
    have hargs : r.args = [Rect.fieldArg r.x, Rect.fieldArg r.y, Rect.fieldArg r.width,
      Rect.fieldArg r.height] := rfl
    rw [List.flatMap_cons, hargs]
    simp only [List.cons_append, List.nil_append, readRects?, ih, readField?_fieldArg,
      Option.map_some, List.map_cons, Rect.sent]

/-- The arguments for a response region are read as its rectangles. -/
theorem readRegion?_args (rs : List Rect) :
    readRegion? (args .responseRegion rs) = some (rs.map Rect.sent) := by
  have hargs : args .responseRegion rs =
      [.list (rs.flatMap Rect.args), .int (rs.flatMap Rect.args).length] := rfl
  rw [hargs]
  exact (if_pos rfl).trans (readRects?_flatMap_args rs)

/-- A response region is brought to a node in one call with two arguments: a flat list, and its
length, which is four times the number of rectangles. Every four elements of the list stand for
one rectangle, in order: its place and its size, with a placeholder for the fields that are not set,
and for these alone. What is sent for a length, of whatever unit and with whatever number, is never
the placeholder. So the arguments are read as the rectangles that they stand for. -/
theorem region_read_back (rs : List Rect) :
    (∀ node, (policy .responseRegion).apply node rs = .single (.apply node .responseRegion
      [.list (rs.flatMap Rect.args), .int (4 * rs.length : Nat)])) ∧
    (rs.flatMap Rect.args).length = 4 * rs.length ∧
    (∀ (i : Nat) (h : i < rs.length), ((rs.flatMap Rect.args).drop (4 * i)).take 4 =
      [Rect.fieldArg rs[i].x, Rect.fieldArg rs[i].y, Rect.fieldArg rs[i].width,
        Rect.fieldArg rs[i].height]) ∧
    (∀ f : Option Length, Rect.fieldArg f = .text Rect.placeholder ↔ f = none) ∧
    (∀ l : Length, Rect.fieldArg (some l) = toWire l ∧ toWire l ≠ .text Rect.placeholder) ∧
    readRegion? (args .responseRegion rs) = some (rs.map Rect.sent) := by
  have hfour : ∀ r : Rect, r.args.length = 4 := fun _ => rfl
  refine ⟨?_, Rect.length_flatMap_args rs, take_drop_flatMap hfour rs,
    fun f => Rect.fieldArg_eq_placeholder_iff, fun l => ⟨rfl, l.toWire_ne_placeholder⟩,
    readRegion?_args rs⟩
  intro node
  rw [← Rect.length_flatMap_args]
  rfl

/-- A rectangle with a NaN for its place and an infinite width, and one with no field set. -/
theorem region_read_back_infinite_width :
    let nan : Double := ⟨0x7ff8000000000000⟩
    let infinity : Double := ⟨0x7ff0000000000000⟩
    let rs : List Rect := [{ x := some (.vp nan), width := some (.px infinity) }, {}]
    ((rs.flatMap Rect.args).drop 0).take 4 = [.number nan, .text "PLACEHOLDER", .text "infpx",
      .text "PLACEHOLDER"] ∧
    readRegion? (args .responseRegion rs) =
      some [⟨some (.number nan), none, some (.text "infpx"), none⟩, ⟨none, none, none, none⟩] := by
  intro nan infinity rs
  have hregion := region_read_back rs
  exact ⟨hregion.2.2.1 0 (by decide), hregion.2.2.2.2.2⟩

end Standard

end Reconciler
