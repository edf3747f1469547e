import Reconciler.Component
import Reconciler.Peer.Recorder

/-!
# Bursts of edits coalesce

A burst may ask for values of an attribute many times over, and for those of several attributes in
any order. What it leaves in a component is told, attribute by attribute, by the last request alone
(`Component.get?_editAll`): the request waits in the slot, and the committed value is the one from
before. So two bursts with the same last requests leave the same component, and a burst may be cut
down to its last edit for each attribute, in any order (`Edit.lastRequest?_perm_lastEdits`).
-/

namespace Reconciler

namespace Edit

/-- What an edit asks for of an attribute, if it is about that attribute. -/
def request? (a : Attribute) (e : Edit) : Option (Option (Standard.Value a)) :=
  if h : e.target = a then some (h ▸ e.value?) else none

/-- What a burst asks for of an attribute at last, if some edit is about that attribute. -/
def lastRequest? (a : Attribute) (es : List Edit) : Option (Option (Standard.Value a)) :=
  es.reverse.findSome? (request? a)

/-- The last edit of a burst for each attribute, in the order of the burst. -/
def lastEdits : List Edit → List Edit
  | [] => []
  | e :: es => if ∃ later ∈ es, later.target = e.target then lastEdits es else e :: lastEdits es

theorem request?_self (e : Edit) : e.request? e.target = some e.value? := by
  simp [request?]

theorem request?_of_ne {a : Attribute} {e : Edit} (h : e.target ≠ a) : e.request? a = none := by
  simp [request?, h]

@[simp] theorem lastRequest?_nil (a : Attribute) : lastRequest? a [] = none := rfl

theorem lastRequest?_cons (a : Attribute) (e : Edit) (es : List Edit) :
    lastRequest? a (e :: es) = (lastRequest? a es).or (e.request? a) := by
  cases h : e.request? a <;> simp [lastRequest?, h]

theorem lastRequest?_append (a : Attribute) (es fs : List Edit) :
    lastRequest? a (es ++ fs) = (lastRequest? a fs).or (lastRequest? a es) := by
  simp [lastRequest?]

/-- Nothing is asked for of an attribute that no edit is about. -/
theorem lastRequest?_eq_none_iff {a : Attribute} {es : List Edit} :
    lastRequest? a es = none ↔ ∀ e ∈ es, e.target ≠ a := by
  simp [lastRequest?, request?]

theorem target_eq_of_request? {a : Attribute} {e : Edit} {r : Option (Standard.Value a)}
    (h : e.request? a = some r) : e.target = a := by
  unfold request? at h
  split at h
  · assumption
  · cases h

/-! ## One edit for each attribute -/

theorem mem_of_mem_lastEdits {e : Edit} {es : List Edit} (h : e ∈ lastEdits es) : e ∈ es := by
  induction es with
  | nil => exact h
  | cons f es ih =>
    unfold lastEdits at h
    split at h
    · exact .tail _ (ih h)
    · rcases List.mem_cons.1 h with rfl | h
      · exact .head _
      · exact .tail _ (ih h)

/-- What is left of a burst has one edit for each attribute. -/
theorem nodup_lastEdits (es : List Edit) : ((lastEdits es).map target).Nodup := by
  induction es with
  | nil => exact .nil
  | cons e es ih =>
    unfold lastEdits
    split
    · exact ih
    · rename_i hlast
      rw [List.map_cons, List.nodup_cons]
      refine ⟨?_, ih⟩
      intro hmem
      rcases List.mem_map.1 hmem with ⟨f, hf, htarget⟩
      exact hlast ⟨f, mem_of_mem_lastEdits hf, htarget⟩

/-- What is left of a burst asks for the same at last. -/
theorem lastRequest?_lastEdits (a : Attribute) (es : List Edit) :
    lastRequest? a (lastEdits es) = lastRequest? a es := by
  induction es with
  | nil => rfl
  | cons e es ih =>
    unfold lastEdits
    split
    · rename_i hlater
      rw [ih, lastRequest?_cons]
      -- a later edit is about the same attribute, so the first one does not count
      rcases hlater with ⟨f, hf, htarget⟩
      by_cases ha : e.target = a
      · have hsome : lastRequest? a es ≠ none := by
          rw [Ne, lastRequest?_eq_none_iff]
          exact fun h => h f hf (htarget.trans ha)
        rcases Option.ne_none_iff_exists'.1 hsome with ⟨r, hr⟩
        simp [hr]
      · simp [request?_of_ne ha]
    · rw [lastRequest?_cons, lastRequest?_cons, ih]

/-- With one edit for each attribute, the last request is the only one. -/
theorem lastRequest?_eq_some_iff {a : Attribute} {es : List Edit} (once : (es.map target).Nodup)
    {r : Option (Standard.Value a)} :
    lastRequest? a es = some r ↔ ∃ e ∈ es, e.request? a = some r := by
  induction es with
  | nil => simp
  | cons e es ih =>
    rw [List.map_cons, List.nodup_cons] at once
    rw [lastRequest?_cons]
    constructor
    · intro h
      rcases Option.or_eq_some_iff.1 h with h | ⟨-, h⟩
      · rcases (ih once.2).1 h with ⟨f, hf, hr⟩
        exact ⟨f, .tail _ hf, hr⟩
      · exact ⟨e, .head _, h⟩
    · rintro ⟨f, hf, hr⟩
      rcases List.mem_cons.1 hf with rfl | hf
      · -- the edits after it are about other attributes
        have hnone : lastRequest? a es = none := by
          rw [lastRequest?_eq_none_iff]
          intro g hg hga
          exact once.1 (List.mem_map.2 ⟨g, hg, hga.trans (target_eq_of_request? hr).symm⟩)
        rw [hnone, hr]
        rfl
      · rw [(ih once.2).2 ⟨f, hf, hr⟩]
        rfl

/-- The last edit for each attribute asks for the same as the burst, in whatever order they come. -/
theorem lastRequest?_perm_lastEdits {es fs : List Edit} (h : fs.Perm (lastEdits es))
    (a : Attribute) : lastRequest? a fs = lastRequest? a es := by
  have once : (fs.map target).Nodup := (h.map target).nodup_iff.2 (nodup_lastEdits es)
  rw [← lastRequest?_lastEdits a es]
  apply Option.ext
  intro r
  rw [lastRequest?_eq_some_iff once, lastRequest?_eq_some_iff (nodup_lastEdits es)]
  constructor
  · rintro ⟨e, he, hr⟩
    exact ⟨e, h.mem_iff.1 he, hr⟩
  · rintro ⟨e, he, hr⟩
    exact ⟨e, h.mem_iff.2 he, hr⟩

end Edit

namespace Table

/-- Only the last of two requests of one kind counts, whatever slot they find. -/
theorem restage_restage {κ : Type} [Catalog κ] [DecidableEq κ] (k : κ)
    (u v : Option (Catalog.Value k)) (o : Option (Entry κ)) :
    restage k v (some (restage k u o)) = restage k v o := by
  -- the first request leaves a slot of the kind, over the same committed value
  rw [restage_eq k v o, restage_eq k v (some _), restage_eq k u o, committed?_self]

/-- A request waits in the slot of its kind, over the committed value that the slot had. -/
theorem slot?_restage {κ : Type} [Catalog κ] [DecidableEq κ] (k : κ) (v : Option (Catalog.Value k))
    (o : Option (Entry κ)) :
    (restage k v o).slot? k = some (((o.bind (·.slot? k)).getD {}).stage v) := by
  rw [restage_eq, Entry.slot?_self, committed?]
  cases o.bind (·.slot? k) <;> rfl

end Table

namespace Component

/-- The slot of an attribute is looked for under the attribute. -/
theorem slot?_eq_bind (c : Component) (a : Attribute) :
    c.slot? a = (c.slots.slots.get? a).bind (·.slot? (Standard.setKind a)) := by
  rw [slot?, Table.slot?, Standard.target_setKind]

theorem slot?_eq_some_iff {c : Component} {a : Attribute} {s : Slot (Standard.Value a)} :
    c.slot? a = some s ↔ c.slots.slots.get? a = some ⟨Standard.setKind a, s⟩ := by
  rw [slot?_eq_bind, Option.bind_eq_some_iff]
  constructor
  · rintro ⟨⟨k, t⟩, hget, ht⟩
    by_cases hk : k = Standard.setKind a
    · subst hk
      rw [Entry.slot?_self, Option.some.injEq] at ht
      rw [hget, ht]
    · rw [Entry.slot?_eq_none hk] at ht
      cases ht
  · intro hget
    exact ⟨_, hget, Entry.slot?_self _ s⟩

theorem get?_edit (c : Component) (e : Edit) (a : Attribute) :
    (c.edit e).slots.slots.get? a =
      match e.request? a with
      | none => c.slots.slots.get? a
      | some r => some (Table.restage (Standard.setKind a) r (c.slots.slots.get? a)) := by
  have h := Table.get?_stage c.slots (Standard.setKind e.target) e.value? a
  rw [Standard.target_setKind, ← slots_edit] at h
  by_cases ha : e.target = a
  · subst ha
    rw [if_pos rfl] at h
    rw [h, Edit.request?_self]
  · rw [if_neg ha] at h
    rw [h, Edit.request?_of_ne ha]

/-- What a burst leaves of an attribute is told by its last request, and by the slot from before. -/
theorem get?_editAll (c : Component) (es : List Edit) (a : Attribute) :
    (c.editAll es).slots.slots.get? a =
      match Edit.lastRequest? a es with
      | none => c.slots.slots.get? a
      | some r => some (Table.restage (Standard.setKind a) r (c.slots.slots.get? a)) := by
  induction es generalizing c with
  | nil => rfl
  | cons e es ih =>
    have hlast := ih (c.edit e)
    rw [get?_edit] at hlast
    rw [Edit.lastRequest?_cons]
    cases hes : Edit.lastRequest? a es <;> cases he : e.request? a <;>
      simp only [hes, he, Table.restage_restage] at hlast <;> exact hlast

theorem node_editAll (c : Component) (es : List Edit) : (c.editAll es).node = c.node := by
  induction es generalizing c with
  | nil => rfl
  | cons e es ih => exact (ih (c.edit e)).trans (c.node_edit e)

/-- Two bursts with the same last requests leave the same component. -/
theorem editAll_congr (c : Component) {es fs : List Edit}
    (h : ∀ a, Edit.lastRequest? a es = Edit.lastRequest? a fs) : c.editAll es = c.editAll fs := by
  have hslots : (c.editAll es).slots = (c.editAll fs).slots := by
    apply Table.ext
    intro a
    rw [get?_editAll, get?_editAll, h a]
  have hnode : (c.editAll es).node = (c.editAll fs).node := by
    rw [node_editAll, node_editAll]
  calc
    c.editAll es = ⟨(c.editAll es).node, (c.editAll es).slots⟩ := rfl
    _ = ⟨(c.editAll fs).node, (c.editAll fs).slots⟩ := by rw [hnode, hslots]
    _ = c.editAll fs := rfl

/-- The last request of a burst waits in its slot, over the committed value from before. -/
theorem slot?_editAll (c : Component) {es : List Edit} {a : Attribute}
    {r : Option (Standard.Value a)} (h : Edit.lastRequest? a es = some r) :
    (c.editAll es).slot? a = some (((c.slot? a).getD {}).stage r) := by
  have hget := c.get?_editAll es a
  rw [h] at hget
  calc
    (c.editAll es).slot? a
      = ((c.editAll es).slots.slots.get? a).bind (·.slot? (Standard.setKind a)) :=
        slot?_eq_bind _ a
    _ = (Table.restage (Standard.setKind a) r (c.slots.slots.get? a)).slot?
          (Standard.setKind a) := by
        rw [hget]
        rfl
    _ = some (((c.slot? a).getD {}).stage r) := by
        rw [slot?_eq_bind]
        exact Table.slot?_restage (Standard.setKind a) r _

/-- Coalescing: two bursts with the same last requests, and a burst and its last edits in any order,
leave the same component, and a pass over it ends the same way against any peer. What they leave of
an attribute that they are about is the last request over the committed value from before. -/
theorem burst_coalesces {π : Type} [Peer π] (c : Component) (p : π) {es fs : List Edit}
    (h : (∀ a, Edit.lastRequest? a es = Edit.lastRequest? a fs) ∨ fs.Perm (Edit.lastEdits es)) :
    c.editAll es = c.editAll fs ∧
      (c.editAll es).commit p = (c.editAll fs).commit p ∧
      ∀ a r, Edit.lastRequest? a es = some r → ∃ s, (c.editAll fs).slot? a = some s ∧
        s.staged = some (.ofOption r) ∧ s.committed = (c.slot? a).bind (·.committed) := by
  have hlast : ∀ a, Edit.lastRequest? a es = Edit.lastRequest? a fs := by
    rcases h with h | h
    · exact h
    · exact fun a => (Edit.lastRequest?_perm_lastEdits h a).symm
  have hc : c.editAll es = c.editAll fs := c.editAll_congr hlast
  refine ⟨hc, by rw [hc], ?_⟩
  intro a r hr
  refine ⟨((c.slot? a).getD {}).stage r, ?_, rfl, ?_⟩
  · rw [← hc]
    exact c.slot?_editAll hr
  · cases c.slot? a <;> rfl

/-- A width is asked for twice, with a height in between, and the peer refuses widths. -/
theorem burst_coalesces_width_twice :
    let es : List Edit := [.set .width (.vp 1), .set .height (.vp 3), .set .width (.px 2)]
    let fs : List Edit := [.set .width (.px 2), .set .height (.vp 3)]
    let c : Component := { node := ⟨1⟩ }
    let p : Recorder := { failing := [.width] }
    fs.Perm (Edit.lastEdits es) ∧ c.editAll es = c.editAll fs ∧
      (c.editAll es).commit p = (c.editAll fs).commit p := by
  intro es fs c p
  have h : fs.Perm (Edit.lastEdits es) := .swap _ _ []
  have hcoalesces := burst_coalesces c p (.inr h)
  exact ⟨h, hcoalesces.1, hcoalesces.2.1⟩

end Component

end Reconciler
