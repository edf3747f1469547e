import Reconciler.Peer.Headless
import Reconciler.Proofs.Burst
import Reconciler.Proofs.Magnitudes
import Reconciler.Proofs.Structural
import Reconciler.Proofs.Turn

/-!
# Rendering again

A burst of edits is made, the component is committed without a failure, and the same burst is made
again, with values that equal the first ones. Then the second pass writes nothing. It resets once
more what the burst unsets, for no slot remembers a reset, and it finds every value unchanged
(`Component.rerender_stable`).

Two things come together here. A clean pass meets every request, so the committed values are those
that the burst asked for last. And they are found equal to themselves, for none of them has a NaN
among its numbers: the ones that are given have none, and reading text never makes one.
-/

namespace Reconciler

/-! ## Numbers that are read are numbers -/

namespace LooseNumber

/-- However many digits there are, they make up a magnitude. -/
theorem fold_le (base : Nat) (digits : List Char) : fold base digits ≤ Double.infinityBits := by
  have hstep : ∀ (ds : List Nat) (b : Nat), b ≤ Double.infinityBits →
      ds.foldl (fun b d => Double.addBits (Double.scaleBits b base) d) b ≤
        Double.infinityBits := by
    intro ds
    induction ds with
    | nil => exact fun b hb => hb
    | cons d ds ih => exact fun b _ => ih _ (Double.nearest_le _ _)
  exact hstep _ 0 (Nat.zero_le _)

/-- Text never counts for a NaN. -/
theorem isNaN_of_leadingInteger? {cs : List Char} {x : Double} (h : leadingInteger? cs = some x) :
    x.isNaN = false := by
  simp only [leadingInteger?] at h
  split at h
  · cases h
  · cases h
    exact Double.isNaN_ofMagnitude (fold_le _ _) _

/-- The numbers in a loosely typed number. Text has none. -/
def numbers : LooseNumber → List Double
  | number x => [x]
  | text _ => []

theorem isNaN_of_layoutWeight? {n : LooseNumber} (hn : NaNFree n.numbers) {x : Double}
    (h : n.layoutWeight? = some x) : x.isNaN = false := by
  cases n with
  | number y =>
    cases h
    exact nanFree_singleton.1 hn
  | text s =>
    simp only [layoutWeight?] at h
    split at h
    · exact isNaN_of_leadingInteger? h
    · cases h

theorem isNaN_zIndex {n : LooseNumber} (hn : NaNFree n.numbers) : n.zIndex.isNaN = false := by
  cases n with
  | number x => exact nanFree_singleton.1 hn
  | text s => exact Double.isNaN_ofMagnitude (Double.nearest_le _ _) false

end LooseNumber

instance (xs : List Double) : Decidable (NaNFree xs) :=
  inferInstanceAs (Decidable (∀ x ∈ xs, x.isNaN = false))

namespace Standard

/-- The numbers in what may be asked for. -/
def inputNumbers : (a : Attribute) → Input a → List Double
  | .layoutWeight => fun (x : LooseNumber) => x.numbers
  | .zIndex => fun (x : LooseNumber) => x.numbers
  | a => fun x => (normalize a x).toList.flatMap (numbers a)

/-- What is asked for without a NaN is a value without one. -/
theorem nanFree_normalize {a : Attribute} {x : Input a} (hx : NaNFree (inputNumbers a x))
    {v : Value a} (h : normalize a x = some v) : NaNFree (numbers a v) := by
  have hother : (normalize a x).toList.flatMap (numbers a) = numbers a v := by simp [h]
  cases a with
  | layoutWeight => exact nanFree_singleton.2 (LooseNumber.isNaN_of_layoutWeight? hx h)
  | zIndex =>
    cases h
    exact nanFree_singleton.2 (LooseNumber.isNaN_zIndex hx)
  | _ => exact hother ▸ hx

end Standard

/-! ## The same burst again -/

namespace Edit

/-- The numbers in what an edit asks for. -/
def numbers : Edit → List Double
  | set a input => Standard.inputNumbers a input
  | unset _ => []

/-- An edit is made again: as it is, or with an input that stands for an equal value. -/
inductive Again : Edit → Edit → Prop where
  | same (e : Edit) : Again e e
  | equal {a : Attribute} {x y : Standard.Input a} {v w : Standard.Value a}
      (hx : Standard.normalize a x = some v) (hy : Standard.normalize a y = some w)
      (h : (w == v) = true) : Again (.set a x) (.set a y)

theorem nanFree_of_value? {e : Edit} (he : NaNFree e.numbers) {v : Standard.Value e.target}
    (h : e.value? = some v) : NaNFree (Standard.numbers e.target v) := by
  cases e with
  | set a input => exact Standard.nanFree_normalize he h
  | unset a => cases h

/-- An edit without a NaN asks for the same when it is made again. -/
theorem Again.request?_beq {e f : Edit} (h : Again e f) (he : NaNFree e.numbers) (a : Attribute) :
    (f.request? a == e.request? a) = true := by
  cases h with
  | same =>
    by_cases ha : e.target = a
    · subst ha
      rw [request?_self]
      cases hv : e.value? with
      | none => rfl
      | some v =>
        have hself := (Standard.unchanged_self_iff _ v).2 (nanFree_of_value? he hv)
        rw [Standard.unchanged_eq_beq] at hself
        simpa using hself
    · rw [request?_of_ne ha]
      rfl
  | @equal b x y v w hx hy hwv =>
    by_cases ha : b = a
    · subst ha
      have he : (Edit.set b x).request? b = some (some v) := by rw [← hx]; exact request?_self _
      have hf : (Edit.set b y).request? b = some (some w) := by rw [← hy]; exact request?_self _
      rw [he, hf]
      simpa using hwv
    · have he : (Edit.set b x).request? a = none := request?_of_ne ha
      have hf : (Edit.set b y).request? a = none := request?_of_ne ha
      rw [he, hf]
      rfl

/-- A burst without a NaN asks for the same at last when it is made again. -/
theorem lastRequest?_beq {es fs : List Edit} (again : List.Forall₂ Again es fs)
    (numbers : ∀ e ∈ es, NaNFree e.numbers) (a : Attribute) :
    (lastRequest? a fs == lastRequest? a es) = true := by
  induction again with
  | nil => rfl
  | @cons e f es fs h _ ih =>
    have hfirst := h.request?_beq (numbers e (.head _)) a
    have hrest := ih fun e he => numbers e (.tail _ he)
    rw [lastRequest?_cons, lastRequest?_cons]
    -- the last request is one of the rest, or else the first
    cases hes : lastRequest? a es <;> cases hfs : lastRequest? a fs <;> rw [hes, hfs] at hrest
    · exact hfirst
    · cases hrest
    · cases hrest
    · exact hrest

/-- Whether the last edit of an attribute in a burst asks for the default. -/
def endsUnset (es : List Edit) (a : Attribute) : Bool := (lastRequest? a es).any (·.isNone)

/-- Whether the last edit of an attribute in a burst asks for a value. -/
def endsSet (es : List Edit) (a : Attribute) : Bool := (lastRequest? a es).any (·.isSome)

end Edit

/-! ## Slots that write nothing -/

/-- A peer after some calls, one after the other, whatever they end with. -/
def Peer.sendAll {π : Type} [Peer π] (cs : List Call) (p : π) : π :=
  cs.foldl (fun p c => (Peer.send c p).2) p

section Steady

variable {κ π : Type} [Catalog κ] [Peer π]

namespace Entry

/-- Whether the default is asked for. -/
def isUnset (e : Entry κ) : Bool := e.slot.staged.any (·.value?.isNone)

/-- Whether a value is asked for. -/
def isValue (e : Entry κ) : Bool := e.slot.staged.any (·.value?.isSome)

/-- A slot of an attribute whose commit writes nothing: nothing waits in it, or the default, or a
value that is found unchanged. -/
inductive Steady (a : Attribute) : Entry κ → Prop where
  | idle {k : κ} {c : Option (Catalog.Value k)} : Steady a ⟨k, ⟨none, c⟩⟩
  | unset {k : κ} {c : Option (Catalog.Value k)} (h : (Catalog.policy k).target = a) :
      Steady a ⟨k, ⟨some .unset, c⟩⟩
  | unchanged {k : κ} {v : Catalog.Value k} {c : Option (Catalog.Value k)}
      (judged : (Catalog.policy k).verdict v c = .unchanged) :
      Steady a ⟨k, ⟨some (.value v), c⟩⟩

/-- Nothing waits in what is left of a slot after its request is met. -/
theorem steady_met? {a : Attribute} {e f : Entry κ} (h : e.met? = some f) :
    f.Steady a ∧ f.isUnset = false ∧ f.isValue = false := by
  rcases e with ⟨k, ⟨_ | v | _, c⟩⟩
  · cases h
    exact ⟨.idle, rfl, rfl⟩
  · cases h
    exact ⟨.idle, rfl, rfl⟩
  · cases h

/-- A commit that writes nothing resets the attribute if the default is asked for, and counts as
unchanged if a value is. -/
theorem Settles.steady [DirectCatalog κ] {node : NodeHandle} {e : Entry κ} {p q : π}
    {s : Settlement κ} (hs : e.Settles node p s q) {a : Attribute} (h : e.Steady a) :
    q = Peer.sendAll (if e.isUnset then [.reset node a] else []) p ∧
      s.isApplied = false ∧ s.isUnchanged = e.isValue := by
  have hreset : ∀ {k : κ} {o : Outcome PeerError Unit} {q : π},
      (Catalog.policy k).target = a → ((Catalog.policy k).reset node).run p = (o, q) →
      q = Peer.sendAll [.reset node a] p := by
    intro k o q hk h
    rw [run_reset, hk] at h
    exact (congrArg Prod.snd h).symm
  cases h with
  | idle =>
    cases hs
    exact ⟨rfl, rfl, rfl⟩
  | unset hk =>
    cases hs with
    | expired h => exact ⟨hreset hk h, rfl, rfl⟩
    | resetFailed h => exact ⟨hreset hk h, rfl, rfl⟩
    | resetPanicked h => exact ⟨hreset hk h, rfl, rfl⟩
  | unchanged judged =>
    -- the verdict leaves no other way
    cases hs with
    | unchanged => exact ⟨rfl, rfl, rfl⟩
    | comparisonPanicked other => cases judged.symm.trans other
    | applied other => cases judged.symm.trans other
    | applyFailed other => cases judged.symm.trans other
    | applyPanicked other => cases judged.symm.trans other

end Entry

/-- The attributes whose entries pass a test, in table order. -/
theorem AttributeMap.map_fst_filter_entries {α : Type} (m : AttributeMap α) (P : α → Bool) :
    (m.entries.filter fun x => P x.2).map (·.1) =
      Attribute.all.filter fun a => (m.get? a).any P := by
  unfold entries
  generalize Attribute.all = as
  induction as with
  | nil => rfl
  | cons a as ih =>
    cases h : m.get? a with
    | none => simpa [h] using ih
    | some x => cases hx : P x <;> simpa [h, hx] using ih

namespace Table

variable {node : NodeHandle}

/-- After a clean pass every request is met. -/
theorem get?_commit_of_isClean {t : Table κ} {p : π}
    (clean : (t.commit node p).1.isClean = true) (a : Attribute) :
    (t.commit node p).2.1.slots.get? a = (t.slots.get? a).bind Entry.met? := by
  cases ha : t.slots.get? a with
  | none => exact get?_commit_of_none ha node p
  | some e =>
    have hs : t.settlement? node p a = some (e.commit node (t.peerAt node p a)).1 := by
      rw [settlement?, ha]
      rfl
    have hnil : (settle node t.slots.entries p).1.filterMap (·.2.error?) = [] :=
      List.isEmpty_iff.1 clean
    have hok := List.filterMap_eq_nil_iff.1 hnil _ (mem_settle_iff.2 hs)
    rw [get?_commit_of_get? ha]
    exact (e.settles_commit node _).remains_of_ok hok

variable [DirectCatalog κ]

theorem settle_steady {entries : List (Attribute × Entry κ)}
    (steady : ∀ x ∈ entries, x.2.Steady x.1) (node : NodeHandle) (p : π) :
    (settle node entries p).2 =
        Peer.sendAll (((entries.filter (·.2.isUnset)).map (·.1)).map (.reset node)) p ∧
      (settle node entries p).1.countP (·.2.isApplied) = 0 ∧
      (settle node entries p).1.countP (·.2.isUnchanged) = entries.countP (·.2.isValue) := by
  induction entries generalizing p with
  | nil => exact ⟨rfl, rfl, rfl⟩
  | cons x entries ih =>
    have hfirst := (x.2.settles_commit node p).steady (steady x (.head _))
    have hrest := ih (fun y hy => steady y (.tail _ hy)) (x.2.commit node p).2
    refine ⟨?_, ?_, ?_⟩
    · simp only [settle, hrest.1]
      rw [hfirst.1]
      cases hx : x.2.isUnset <;> simp [hx, Peer.sendAll]
    · simp only [settle, List.countP_cons, hrest.2.1, hfirst.2.1]
      rfl
    · simp only [settle, List.countP_cons, hrest.2.2, hfirst.2.2]

/-- A pass over slots that write nothing resets the attributes whose default is asked for, makes no
other call, and counts the values that wait as unchanged. -/
theorem commit_steady {t : Table κ} (steady : ∀ a e, t.slots.get? a = some e → e.Steady a)
    (node : NodeHandle) (p : π) :
    (t.commit node p).2.2 =
        Peer.sendAll ((Attribute.all.filter fun a => (t.slots.get? a).any Entry.isUnset).map
          (.reset node)) p ∧
      (t.commit node p).1.applied = 0 ∧
      (t.commit node p).1.unchanged =
        (Attribute.all.filter fun a => (t.slots.get? a).any Entry.isValue).length := by
  have hentries : ∀ x ∈ t.slots.entries, x.2.Steady x.1 :=
    fun x hx => steady x.1 x.2 (AttributeMap.mem_entries.1 hx)
  have hsettle := settle_steady hentries node p
  rw [AttributeMap.map_fst_filter_entries] at hsettle
  refine ⟨hsettle.1, hsettle.2.1, ?_⟩
  rw [← AttributeMap.map_fst_filter_entries, List.length_map, ← List.countP_eq_length_filter]
  exact hsettle.2.2

end Table

end Steady

namespace Component

/-- What was asked for is met, and then an equal request is made: it writes nothing. -/
theorem steady_restage {a : Attribute} {r s : Option (Standard.Value a)} (h : (s == r) = true)
    (d : Option (Standard.Value a)) :
    let e := Table.restage (Standard.setKind a) s
      (Entry.met? ⟨Standard.setKind a, ⟨some (.ofOption r), d⟩⟩)
    e.Steady a ∧ e.isUnset = r.isNone ∧ e.isValue = r.isSome := by
  cases r with
  | none =>
    -- the slot is gone, and a new one asks for the default again
    cases s with
    | some w => cases h
    | none => exact ⟨.unset (Standard.target_setKind a), rfl, rfl⟩
  | some v =>
    cases s with
    | none => cases h
    | some w =>
      -- the value is compared with the committed one, which it equals
      have hjudged : (Standard.policy a).verdict w (some v) = .unchanged := by
        rw [Standard.verdict_eq_unchanged_iff, Standard.unchanged_eq_beq]
        exact h
      have hslot : Table.restage (Standard.setKind a) (some w)
          (Entry.met? ⟨Standard.setKind a, ⟨some (.ofOption (some v)), d⟩⟩) =
          ⟨Standard.setKind a, ⟨some (.value w), some v⟩⟩ :=
        Entry.stage_self (Standard.setKind a) ⟨none, some v⟩ (some w)
      rw [hslot]
      exact ⟨.unchanged hjudged, rfl, rfl⟩

/-- When a burst is made again after a pass that met it, the slot of an attribute writes nothing,
and what waits in it is what the burst asks for at last. -/
theorem steady_rerender {π : Type} [Peer π] {c : Component} {p : π} {es fs : List Edit}
    (numbers : ∀ e ∈ es, NaNFree e.numbers) (again : List.Forall₂ Edit.Again es fs)
    (clean : ((c.editAll es).commit p).1.isClean = true) (a : Attribute)
    {o : Option (Entry Standard.Kind)}
    (ho : o = (((c.editAll es).commit p).2.1.editAll fs).slots.slots.get? a) :
    (∀ e, o = some e → e.Steady a) ∧ o.any Entry.isUnset = Edit.endsUnset es a ∧
      o.any Entry.isValue = Edit.endsSet es a := by
  have hlast := Edit.lastRequest?_beq again numbers a
  have hmet : ((c.editAll es).commit p).2.1.slots.slots.get? a =
      ((c.editAll es).slots.slots.get? a).bind Entry.met? := Table.get?_commit_of_isClean clean a
  rw [get?_editAll, hmet, get?_editAll] at ho
  rw [Edit.endsUnset, Edit.endsSet]
  cases hes : Edit.lastRequest? a es <;> cases hfs : Edit.lastRequest? a fs <;>
    simp only [hes, hfs] at hlast ho
  case none.some => cases hlast
  case some.none => cases hlast
  case none.none =>
    -- the burst is not about the attribute, so nothing waits
    cases o with
    | none => exact ⟨fun _ h => (by cases h), rfl, rfl⟩
    | some f =>
      rcases Option.bind_eq_some_iff.1 ho.symm with ⟨e, -, he⟩
      have hidle := Entry.steady_met? (a := a) he
      exact ⟨fun _ h => Option.some.inj h ▸ hidle.1, hidle.2.1, hidle.2.2⟩
  case some.some r s =>
    rw [Table.restage_eq (Standard.setKind a) r (c.slots.slots.get? a)] at ho
    subst ho
    have hagain := steady_restage hlast
      (Table.committed? (Standard.setKind a) (c.slots.slots.get? a))
    exact ⟨fun _ h => Option.some.inj h ▸ hagain.1, hagain.2.1, hagain.2.2⟩

/-- Rendering again writes nothing. A burst without a NaN is made and brought to a peer without a
failure, and then it is made again with equal values. A pass against any peer then resets each
attribute whose default the burst asks for at last, once and in table order, and makes no other
call; and it finds unchanged each attribute of which the burst asks for a value at last. -/
theorem rerender_stable {π ρ : Type} [Peer π] [Peer ρ] (c : Component) (p : π) (q : ρ)
    {es fs : List Edit} (numbers : ∀ e ∈ es, NaNFree e.numbers)
    (again : List.Forall₂ Edit.Again es fs)
    (clean : ((c.editAll es).commit p).1.isClean = true) :
    let d := ((c.editAll es).commit p).2.1.editAll fs
    (d.commit q).2.2 =
        Peer.sendAll ((Attribute.all.filter (Edit.endsUnset es)).map (.reset c.node)) q ∧
      (d.commit q).1.applied = 0 ∧
      (d.commit q).1.unchanged = (Attribute.all.filter (Edit.endsSet es)).length := by
  intro d
  have hslot := fun a => steady_rerender numbers again clean a rfl
  have hnode : d.node = c.node := by
    have hcommit : ((c.editAll es).commit p).2.1.node = (c.editAll es).node := rfl
    rw [node_editAll, hcommit, node_editAll]
  have hpass := Table.commit_steady (t := d.slots) (fun a => (hslot a).1) d.node q
  have hunset : (fun a => (d.slots.slots.get? a).any Entry.isUnset) = Edit.endsUnset es :=
    funext fun a => (hslot a).2.1
  have hset : (fun a => (d.slots.slots.get? a).any Entry.isValue) = Edit.endsSet es :=
    funext fun a => (hslot a).2.2
  rw [hunset, hset] at hpass
  rw [← hnode]
  exact hpass

/-- A width of zero is set again as minus zero, and a stacking order as the same text. A weight that
is no number and a flag that is left open are reset again, although the peer refuses both. -/
theorem rerender_stable_zero_width :
    let n := ({} : Headless).createNode
    let c : Component := { node := n.1 }
    let es : List Edit := [.unset .width, .set .layoutWeight (.text "7.5"), .set .touchable none,
      .set .zIndex (.text "7"), .set .width (.px ⟨0⟩), .set .layoutWeight (.text "seven")]
    let fs : List Edit := [.unset .width, .set .layoutWeight (.text "7.5"), .set .touchable none,
      .set .zIndex (.text "7"), .set .width (.px ⟨0x8000000000000000⟩),
      .set .layoutWeight (.text "seven")]
    let d := ((c.editAll es).commit n.2).2.1.editAll fs
    let q : Recorder := { failing := [.layoutWeight, .touchable] }
    (d.commit q).2.2.calls = [.reset n.1 .layoutWeight, .reset n.1 .touchable] ∧
      (d.commit q).1.applied = 0 ∧ (d.commit q).1.unchanged = 2 := by
  intro n c es fs d q
  have numbers : ∀ e ∈ es, NaNFree e.numbers := by decide +kernel
  have again : List.Forall₂ Edit.Again es fs :=
    .cons (.same _) (.cons (.same _) (.cons (.same _) (.cons (.same _)
      (.cons (.equal rfl rfl (by decide)) (.cons (.same _) .nil)))))
  have clean : ((c.editAll es).commit n.2).1.isClean = true := by decide +kernel
  have hunset : Attribute.all.filter (Edit.endsUnset es) = [.layoutWeight, .touchable] := by
    decide +kernel
  have hset : Attribute.all.filter (Edit.endsSet es) = [.width, .zIndex] := by decide +kernel
  -- from here on the bursts need not be looked into
  clear_value es fs
  have hstable := rerender_stable c n.2 q numbers again clean
  rw [hunset, hset] at hstable
  refine ⟨?_, hstable.2.1, hstable.2.2⟩
  rw [hstable.1]
  rfl

end Component

end Reconciler
