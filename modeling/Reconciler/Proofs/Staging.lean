import Reconciler.Proofs.Burst
import Reconciler.Proofs.Reachable

/-!
# An edit touches one request

The slots of a component are all made by its own edits. To set an attribute is to stage a slot of
one kind, to unset it is to stage a slot of another that happens to be the same, and a pass keeps
the kind of every slot. So in every component in use the slot of an attribute is of the kind that
either of them stages (`Component.Reachable.conforms`), and an edit never puts a new slot in the
place of one of another kind, which would forget what is committed. All that an edit changes is the
request that waits in the slot of its own attribute (`Component.Reachable.edit_frame`).
-/

namespace Reconciler

namespace Component

/-- Components in use: a new one on any node, after any edits and passes. Every pass may be against
another peer, in whatever state. -/
inductive Reachable : Component → Prop where
  | new (node : NodeHandle) : Reachable { node := node }
  | edit {c : Component} (h : Reachable c) (e : Edit) : Reachable (c.edit e)
  | commit {c : Component} (h : Reachable c) {π : Type} [Peer π] (p : π) :
      Reachable (c.commit p).2.1

variable {c : Component} {a : Attribute}

/-! ## Kinds of slots -/

/-- The slot of each attribute is of the kind that setting the attribute stages. -/
def Conforms (c : Component) : Prop :=
  ∀ a f, c.slots.slots.get? a = some f → f.kind = Standard.setKind a

namespace Conforms

theorem new (node : NodeHandle) : Conforms { node := node } := by
  intro a f hf
  rw [Table.get?_empty] at hf
  cases hf

theorem set (h : c.Conforms) (a : Attribute) (input : Standard.Input a) :
    (c.set a input).Conforms := by
  intro b f hf
  rcases Table.kind_of_get?_stage hf with ⟨htarget, hkind⟩ | hf
  · rw [Standard.target_setKind] at htarget
    rw [hkind, htarget]
  · exact h b f hf

/-- Unsetting leaves a slot of its own kind, which is also the one that setting stages. -/
theorem unset (h : c.Conforms) (a : Attribute) : (c.unset a).Conforms := by
  intro b f hf
  rcases Table.kind_of_get?_stage hf with ⟨htarget, hkind⟩ | hf
  · rw [Standard.unsetKind_eq, Standard.target_setKind] at htarget
    rw [hkind, Standard.unsetKind_eq, htarget]
  · exact h b f hf

theorem commit (h : c.Conforms) {π : Type} [Peer π] (p : π) : (c.commit p).2.1.Conforms := by
  intro b f hf
  rcases Table.exists_kind_of_get?_commit hf with ⟨e, he, hkind⟩
  rw [hkind, h b e he]

theorem exists_slot (h : c.Conforms) {f : Entry Standard.Kind}
    (hf : c.slots.slots.get? a = some f) : ∃ s, f = ⟨Standard.setKind a, s⟩ := by
  rcases f with ⟨k, s⟩
  obtain rfl : k = Standard.setKind a := h a _ hf
  exact ⟨s, rfl⟩

end Conforms

theorem Reachable.conforms (h : c.Reachable) : c.Conforms := by
  induction h with
  | new node => exact .new node
  | edit _ e ih =>
    cases e with
    | set a input => exact ih.set a input
    | unset a => exact ih.unset a
  | commit _ p ih => exact ih.commit p

/-! ## Frames -/

/-- An edit leaves the slots of other attributes alone. -/
theorem get?_edit_of_ne {e : Edit} (h : a ≠ e.target) :
    (c.edit e).slots.slots.get? a = c.slots.slots.get? a := by
  rw [get?_edit, Edit.request?_of_ne (Ne.symm h)]

/-- Where there is no slot an edit makes one, with nothing committed. -/
theorem get?_edit_of_none {e : Edit} (h : c.slots.slots.get? e.target = none) :
    (c.edit e).slots.slots.get? e.target =
      some ⟨Standard.setKind e.target, ⟨some (.ofOption e.value?), none⟩⟩ := by
  rw [get?_edit, Edit.request?_self, h]
  rfl

/-- In a slot of the kind that it stages an edit replaces the request that waits, and nothing
else. -/
theorem get?_edit_of_kind {e : Edit} {s : Slot (Standard.Value e.target)}
    (h : c.slots.slots.get? e.target = some ⟨Standard.setKind e.target, s⟩) :
    (c.edit e).slots.slots.get? e.target =
      some ⟨Standard.setKind e.target, ⟨some (.ofOption e.value?), s.committed⟩⟩ := by
  have hstage := Table.restage_eq (Standard.setKind e.target) e.value?
    (some ⟨Standard.setKind e.target, s⟩)
  rw [Table.committed?_self] at hstage
  rw [get?_edit, Edit.request?_self, h]
  exact congrArg some hstage

namespace Reachable

/-- An edit of a component in use, whichever attribute it sets or unsets, leaves all other slots
alone, takes none away, and changes nothing of what is committed. Every slot is of the kind that
setting its attribute stages, and of the kind that unsetting it stages. So the slot that an edit
finds at its own attribute is kept and only its request is replaced; if there is none, one is made
with nothing committed. -/
theorem edit_frame (h : c.Reachable) (e : Edit) :
    (c.edit e).node = c.node ∧
    (∀ a f, c.slots.slots.get? a = some f →
      f.kind = Standard.setKind a ∧ f.kind = Standard.unsetKind a) ∧
    (∀ a, a ≠ e.target → (c.edit e).slots.slots.get? a = c.slots.slots.get? a) ∧
    (∀ f, c.slots.slots.get? e.target = some f →
      ∃ s, f = ⟨Standard.setKind e.target, s⟩ ∧ (c.edit e).slots.slots.get? e.target =
        some ⟨Standard.setKind e.target, ⟨some (.ofOption e.value?), s.committed⟩⟩) ∧
    (c.slots.slots.get? e.target = none → (c.edit e).slots.slots.get? e.target =
      some ⟨Standard.setKind e.target, ⟨some (.ofOption e.value?), none⟩⟩) ∧
    ∀ a s, c.slot? a = some s →
      ∃ s', (c.edit e).slot? a = some s' ∧ s'.committed = s.committed := by
  have hkinds : ∀ a f, c.slots.slots.get? a = some f →
      f.kind = Standard.setKind a ∧ f.kind = Standard.unsetKind a := by
    intro a f hf
    have hset := h.conforms a f hf
    exact ⟨hset, hset.trans (Standard.unsetKind_eq a).symm⟩
  have hfound : ∀ f, c.slots.slots.get? e.target = some f →
      ∃ s, f = ⟨Standard.setKind e.target, s⟩ ∧ (c.edit e).slots.slots.get? e.target =
        some ⟨Standard.setKind e.target, ⟨some (.ofOption e.value?), s.committed⟩⟩ := by
    intro f hf
    obtain ⟨s, rfl⟩ := h.conforms.exists_slot hf
    exact ⟨s, rfl, get?_edit_of_kind hf⟩
  refine ⟨c.node_edit e, hkinds, fun a => get?_edit_of_ne, hfound, get?_edit_of_none, ?_⟩
  intro a s hs
  have hget := slot?_eq_some_iff.1 hs
  by_cases ha : a = e.target
  · subst ha
    obtain ⟨r, hr, hedit⟩ := hfound _ hget
    cases hr
    exact ⟨_, slot?_eq_some_iff.2 hedit, rfl⟩
  · refine ⟨s, slot?_eq_some_iff.2 ?_, rfl⟩
    rw [get?_edit_of_ne ha, hget]

/-- A width is committed and then set again, and unset; the hover effect, which is compared in
another way, is unset without ever having been set. -/
theorem edit_frame_width_and_hover :
    let c := (((Component.mk ⟨1⟩ ∅).set .width (.vp 1)).commit ({} : Recorder)).2.1
    c.Reachable ∧
      (c.set .width (.px 2)).slots.slots.get? .width =
        some ⟨.keyed .width, ⟨some (.value (Length.px 2)), some (Length.vp 1)⟩⟩ ∧
      ((c.set .width (.px 2)).unset .width).slots.slots.get? .width =
        some ⟨.keyed .width, ⟨some .unset, some (Length.vp 1)⟩⟩ ∧
      (c.unset .hoverEffect).slots.slots.get? .hoverEffect =
        some ⟨.reference .hoverEffect, ⟨some .unset, none⟩⟩ ∧
      (c.unset .hoverEffect).slots.slots.get? .width = c.slots.slots.get? .width := by
  intro c
  have hc : c.Reachable := .commit (.edit (.new ⟨1⟩) _) _
  have hset := edit_frame hc (.set .width (.px 2))
  have hunset := edit_frame (hc.edit (.set .width (.px 2))) (.unset .width)
  have hhover := edit_frame hc (.unset .hoverEffect)
  obtain ⟨s, hs, hpx⟩ := hset.2.2.2.1 _ rfl
  cases hs
  obtain ⟨s, hs, hgone⟩ := hunset.2.2.2.1 _ hpx
  cases hs
  exact ⟨hc, hpx, hgone, hhover.2.2.2.2.1 rfl, hhover.2.2.1 .width (by decide)⟩

end Reachable

end Component

end Reconciler
