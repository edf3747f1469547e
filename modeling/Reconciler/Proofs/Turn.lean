import Reconciler.Proofs.Pass

/-!
# The turn of each slot

A pass hands one peer from slot to slot. Here it is taken apart at one attribute: the slots before
it, its own slot, and the slots after it (`AttributeMap.entries_eq`). `Table.peerAt` is the peer as
the pass finds it when the turn comes to the attribute, and `Table.settlement?` is how the slot of
the attribute is settled then.

That one settlement tells what is left of the slot, whether it expired and how it failed
(`Table.get?_commit`, `Table.mem_expired_commit`, `Table.errors_commit`). The other slots have a say
in it only through the peer that they leave.
-/

namespace Reconciler

namespace AttributeMap

variable {α : Type}

/-- The entries at the attributes before one. -/
def before (m : AttributeMap α) (a : Attribute) : List (Attribute × α) :=
  m.entries.filter (·.1 < a)

/-- The entries at the attributes after one. -/
def after (m : AttributeMap α) (a : Attribute) : List (Attribute × α) :=
  m.entries.filter (a < ·.1)

/-- The entry at an attribute, if there is one. -/
def own (m : AttributeMap α) (a : Attribute) : List (Attribute × α) :=
  (m.get? a).toList.map (a, ·)

/-- The entries at some attributes are found by looking at these attributes alone. -/
theorem filter_entries (m : AttributeMap α) (P : Attribute → Bool) :
    m.entries.filter (fun x => P x.1) =
      (Attribute.all.filter P).filterMap fun b => (m.get? b).map (b, ·) := by
  have hpick : ∀ b, ((m.get? b).map (b, ·)).filter (fun x => P x.1) =
      if P b = true then (m.get? b).map (b, ·) else none := by
    intro b
    cases m.get? b <;> simp [Option.filter]
  simp only [entries, List.filter_filterMap, List.filterMap_filter, hpick]

/-- The entries are those before an attribute, its own, and those after it. -/
theorem entries_eq (m : AttributeMap α) (a : Attribute) :
    m.entries = m.before a ++ (m.own a ++ m.after a) := by
  -- the table order runs over all attributes, so it is enough to split these
  have hall : Attribute.all =
      Attribute.all.filter (· < a) ++ (a :: Attribute.all.filter (a < ·)) := by
    cases a <;> decide
  have hbefore : m.before a = (Attribute.all.filter (· < a)).filterMap fun b =>
      (m.get? b).map (b, ·) := m.filter_entries (· < a)
  have hafter : m.after a = (Attribute.all.filter (a < ·)).filterMap fun b =>
      (m.get? b).map (b, ·) := m.filter_entries (a < ·)
  calc
    m.entries = (Attribute.all.filter (· < a) ++ (a :: Attribute.all.filter (a < ·))).filterMap
        fun b => (m.get? b).map (b, ·) := by rw [← hall]; rfl
    _ = m.before a ++ (a :: Attribute.all.filter (a < ·)).filterMap
        fun b => (m.get? b).map (b, ·) := by rw [List.filterMap_append, hbefore]
    _ = m.before a ++ (m.own a ++ m.after a) := by
      rw [List.filterMap_cons, hafter]
      unfold own
      cases m.get? a <;> rfl

/-- An entry before or after an attribute is that of another. -/
theorem entry_elsewhere {m : AttributeMap α} {a : Attribute} {x : Attribute × α}
    (h : x ∈ m.before a ∨ x ∈ m.after a) : m.get? x.1 = some x.2 ∧ x.1 ≠ a := by
  have hirrefl : ¬ a < a := Nat.lt_irrefl _
  rcases h with h | h
  · rcases List.mem_filter.1 h with ⟨hmem, hlt⟩
    have hlt : x.1 < a := of_decide_eq_true hlt
    exact ⟨mem_entries.1 hmem, fun heq => hirrefl (heq ▸ hlt)⟩
  · rcases List.mem_filter.1 h with ⟨hmem, hlt⟩
    have hlt : a < x.1 := of_decide_eq_true hlt
    exact ⟨mem_entries.1 hmem, fun heq => hirrefl (heq ▸ hlt)⟩

end AttributeMap

variable {κ π : Type} [Catalog κ] [Peer π]

namespace Entry.Settles

variable {node : NodeHandle} {e : Entry κ} {p q : π} {s : Settlement κ}

/-- A failure is reported under the attribute of the slot. -/
theorem target_error (hs : e.Settles node p s q) {err : CommitError} (h : s.error? = some err) :
    err.target = e.target := by
  cases hs with
  | idle => cases h
  | expired => cases h
  | unchanged => cases h
  | applied => cases h
  | resetFailed => cases h; rfl
  | resetPanicked => cases h; rfl
  | comparisonPanicked => cases h; rfl
  | applyFailed => cases h; rfl
  | applyPanicked => cases h; rfl

end Entry.Settles

namespace Table

/-- Slots are settled in parts as they are settled in one go. -/
theorem settle_append (node : NodeHandle) (xs ys : List (Attribute × Entry κ)) (p : π) :
    settle node (xs ++ ys) p =
      ((settle node xs p).1 ++ (settle node ys (settle node xs p).2).1,
        (settle node ys (settle node xs p).2).2) := by
  induction xs generalizing p with
  | nil => rfl
  | cons x xs ih => simp only [List.cons_append, settle, ih]

/-- The peer when the turn comes to an attribute: the slots before it are settled. -/
def peerAt (t : Table κ) (node : NodeHandle) (p : π) (a : Attribute) : π :=
  (settle node (t.slots.before a) p).2

/-- How the slot of an attribute is settled when its turn comes, if there is one. -/
def settlement? (t : Table κ) (node : NodeHandle) (p : π) (a : Attribute) :
    Option (Settlement κ) :=
  (t.slots.get? a).map fun e => (e.commit node (t.peerAt node p a)).1

variable {t : Table κ} {node : NodeHandle} {p : π} {a : Attribute} {s : Settlement κ}

/-- The settlement of a slot is one of the ways in which its commit ends. -/
theorem settles_of_settlement? (h : t.settlement? node p a = some s) :
    ∃ e q, t.slots.get? a = some e ∧ e.Settles node (t.peerAt node p a) s q := by
  rcases Option.map_eq_some_iff.1 h with ⟨e, he, rfl⟩
  exact ⟨e, _, he, e.settles_commit node _⟩

/-- When its turn comes, a slot is settled once. -/
theorem settle_own (t : Table κ) (node : NodeHandle) (p : π) (a : Attribute) :
    (settle node (t.slots.own a) (t.peerAt node p a)).1 =
      (t.settlement? node p a).toList.map (a, ·) := by
  unfold settlement? AttributeMap.own
  cases t.slots.get? a <;> rfl

/-- A pass settles the slot of an attribute once, between those before it and those after it. -/
theorem settle_entries (t : Table κ) (node : NodeHandle) (p : π) (a : Attribute) :
    ∃ q : π, (settle node t.slots.entries p).1 =
      (settle node (t.slots.before a) p).1 ++
        ((t.settlement? node p a).toList.map (a, ·) ++ (settle node (t.slots.after a) q).1) := by
  refine ⟨(settle node (t.slots.own a) (t.peerAt node p a)).2, ?_⟩
  rw [t.slots.entries_eq a, settle_append, settle_append, ← settle_own]
  rfl

/-- A settlement among those of other attributes is not that of an attribute. -/
theorem not_mem_settle {entries : List (Attribute × Entry κ)} (h : ∀ x ∈ entries, x.1 ≠ a) :
    (a, s) ∉ (settle node entries p).1 := by
  intro hmem
  have hkey : a ∈ entries.map (·.1) := by
    rw [← map_fst_settle node entries p]
    exact List.mem_map_of_mem hmem
  rcases List.mem_map.1 hkey with ⟨x, hx, hxa⟩
  exact h x hx hxa

theorem mem_settle_iff :
    (a, s) ∈ (settle node t.slots.entries p).1 ↔ t.settlement? node p a = some s := by
  rcases t.settle_entries node p a with ⟨q, hsettle⟩
  have hbefore : (a, s) ∉ (settle node (t.slots.before a) p).1 :=
    not_mem_settle fun _ hx => (AttributeMap.entry_elsewhere (.inl hx)).2
  have hafter : (a, s) ∉ (settle node (t.slots.after a) q).1 :=
    not_mem_settle fun _ hx => (AttributeMap.entry_elsewhere (.inr hx)).2
  rw [hsettle]
  simp [hbefore, hafter]

/-- What a pass leaves of a slot is what the slot's own settlement leaves. -/
theorem get?_commit (t : Table κ) (node : NodeHandle) (p : π) (a : Attribute) :
    (t.commit node p).2.1.slots.get? a = (t.settlement? node p a).bind Settlement.remains := by
  have hcommit : (t.commit node p).2.1 = t.absorb (settle node t.slots.entries p).1 := rfl
  rw [hcommit]
  cases hs : t.settlement? node p a with
  | some s =>
    -- no later settlement overwrites this one
    have once : ((settle node t.slots.entries p).1.map (·.1)).Nodup := by
      rw [map_fst_settle]
      exact t.nodup_entries
    exact get?_absorb_of_mem t once (mem_settle_iff.2 hs)
  | none =>
    have hnone : t.slots.get? a = none := by simpa [settlement?] using hs
    rw [get?_absorb_of_not_mem, hnone]
    · rfl
    · intro hmem
      rcases List.mem_map.1 hmem with ⟨⟨b, s⟩, hx, rfl⟩
      rw [mem_settle_iff.1 hx] at hs
      cases hs

theorem get?_commit_of_get? {e : Entry κ} (h : t.slots.get? a = some e) (node : NodeHandle)
    (p : π) :
    (t.commit node p).2.1.slots.get? a = (e.commit node (t.peerAt node p a)).1.remains := by
  rw [get?_commit, settlement?, h]
  rfl

/-- A pass makes no slot where there was none. -/
theorem get?_commit_of_none (h : t.slots.get? a = none) (node : NodeHandle) (p : π) :
    (t.commit node p).2.1.slots.get? a = none := by
  rw [get?_commit, settlement?, h]
  rfl

/-- A slot that a pass leaves is what the commit of a slot left. -/
theorem exists_of_get?_commit {f : Entry κ}
    (h : (t.commit node p).2.1.slots.get? a = some f) :
    ∃ e, t.slots.get? a = some e ∧ (e.commit node (t.peerAt node p a)).1.remains = some f := by
  cases ha : t.slots.get? a with
  | none =>
    rw [get?_commit_of_none ha] at h
    cases h
  | some e =>
    rw [get?_commit_of_get? ha] at h
    exact ⟨e, rfl, h⟩

/-- An attribute is reported as expired if the slot's own settlement says so. -/
theorem mem_expired_commit :
    a ∈ (t.commit node p).1.expired ↔ ∃ s, t.settlement? node p a = some s ∧ s.drops = true := by
  have hcommit : (t.commit node p).1 = .ofSettled (settle node t.slots.entries p).1 := rfl
  rw [hcommit]
  simp [Report.ofSettled, mem_settle_iff]

/-- Every slot is kept under its own attribute. -/
def Keyed (t : Table κ) : Prop :=
  ∀ a e, t.slots.get? a = some e → e.target = a

/-- Slots of other attributes report no failure of an attribute. -/
theorem errors_settle_elsewhere (keyed : t.Keyed) (node : NodeHandle) (p : π)
    {entries : List (Attribute × Entry κ)}
    (h : ∀ x ∈ entries, t.slots.get? x.1 = some x.2 ∧ x.1 ≠ a) :
    ((settle node entries p).1.filterMap (·.2.error?)).filter (·.target = a) = [] := by
  rw [List.filter_eq_nil_iff]
  intro err herr
  rcases List.mem_filterMap.1 herr with ⟨⟨b, s⟩, hmem, hs⟩
  rcases settles_of_mem_settle hmem with ⟨e, p', q', he, hsettles⟩
  have hother := h (b, e) he
  have htarget : err.target = b := (hsettles.target_error hs).trans (keyed b e hother.1)
  rw [htarget]
  simpa using hother.2

/-- The failure reported of an attribute is that of the slot's own settlement. -/
theorem errors_commit (keyed : t.Keyed) :
    (t.commit node p).1.errors.filter (·.target = a) =
      ((t.settlement? node p a).bind Settlement.error?).toList := by
  have hcommit : (t.commit node p).1 = .ofSettled (settle node t.slots.entries p).1 := rfl
  rcases t.settle_entries node p a with ⟨q, hsettle⟩
  have hbefore := errors_settle_elsewhere keyed node p
    fun x (hx : x ∈ t.slots.before a) => AttributeMap.entry_elsewhere (.inl hx)
  have hafter := errors_settle_elsewhere keyed node q
    fun x (hx : x ∈ t.slots.after a) => AttributeMap.entry_elsewhere (.inr hx)
  rw [hcommit, Report.ofSettled, hsettle]
  simp only [List.filterMap_append, List.filter_append]
  rw [hbefore, hafter, List.nil_append, List.append_nil]
  cases hs : t.settlement? node p a with
  | none => rfl
  | some s =>
    rcases settles_of_settlement? hs with ⟨e, q, he, hsettles⟩
    cases herr : s.error? with
    | none => simp [herr]
    | some err =>
      have htarget : err.target = a := (hsettles.target_error herr).trans (keyed a e he)
      simp [herr, htarget]

end Table

end Reconciler
