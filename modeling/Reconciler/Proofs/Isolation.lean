import Reconciler.Proofs.Journal

/-!
# Slots do not disturb each other

What a pass does about one attribute depends on the slot of that attribute and on how the peer
answers calls about it, and on nothing else. This is a statement about two passes at once: they
start from tables with the same slot at the attribute and from recorders that answer alike about it
(`Recorder.Alike`), and whatever differs otherwise, they make the same calls about the attribute,
leave the same slot and report the same of it (`Table.commit_noninterference`).

The two recorders are compared when the turn comes to the attribute. By then each has been called
about other attributes only, so the slot is committed in lockstep (`Recorder.Alike.simulation`).
-/

namespace Reconciler

/-- Recorders that answer calls about an attribute alike. They may have got other calls so far. -/
structure Recorder.Alike (a : Attribute) (p q : Recorder) : Prop where
  failing : a ∈ p.failing ↔ a ∈ q.failing
  panicking : a ∈ p.panicking ↔ a ∈ q.panicking

namespace Recorder.Alike

variable {a : Attribute} {p q : Recorder}

theorem outcome_eq (h : Alike a p q) : p.outcome a = q.outcome a := by
  unfold outcome
  simp only [h.failing, h.panicking]

/-- Further calls change nothing of how recorders answer. -/
theorem record (h : Alike a p q) (cs ds : List Call) : Alike a (p.record cs) (q.record ds) :=
  ⟨h.failing, h.panicking⟩

/-- Calls about the attribute are answered alike by both recorders, and kept by both. -/
theorem simulation (h : Alike a p q) :
    Peer.Simulation (fun c => c.target = a)
      fun p' q' => ∃ cs, p' = p.record cs ∧ q' = q.record cs := by
  constructor
  · rintro _ _ ⟨cs, rfl, rfl⟩ c rfl
    simp only [send_eq, outcome_record]
    exact h.outcome_eq
  · rintro _ _ ⟨cs, rfl, rfl⟩ c -
    simp only [send_eq, record_record]
    exact ⟨cs ++ [c], rfl, rfl⟩

end Recorder.Alike

variable {κ : Type} [Catalog κ] {node : NodeHandle}

/-- A slot all of whose calls about a node are about its own attribute. -/
def Entry.Local (node : NodeHandle) (e : Entry κ) : Prop :=
  e.Calls (fun c => c.target = e.target) node

theorem Entry.CallsOnce.isLocal {e : Entry κ} (h : e.CallsOnce node) : e.Local node := by
  constructor
  · intro v
    rcases h.apply_eq v with ⟨xs, finish, hxs⟩
    rw [hxs]
    exact ⟨rfl, fun _ => trivial⟩
  · rw [h.reset_eq]
    exact ⟨rfl, fun _ => trivial⟩

/-- Every probe makes calls about its own attribute alone. -/
theorem Probe.entry_isLocal (node : NodeHandle) (e : Entry (Standard.Kind ⊕ Probe)) :
    e.Local node := by
  by_cases h : e.kind = .inr .fallible
  · rcases e with ⟨k, slot⟩
    obtain rfl : k = .inr .fallible := h
    have hsingle : ∀ xs, (Script.single (.apply node .font xs)).Calls fun c => c.target = .font :=
      fun xs => ⟨rfl, fun _ => trivial⟩
    -- text that starts with an exclamation mark makes no call
    have hcalls : ∀ s, (Probe.applyFallible node s).Calls fun c => c.target = .font := by
      intro s
      unfold Probe.applyFallible
      split
      · trivial
      · exact hsingle _
    exact ⟨hcalls, hsingle _⟩
  · exact (Probe.entry_callsOnce h node).isLocal

namespace Table

variable {t u : Table κ} {a : Attribute} {p q : Recorder}

section Around

variable (keyed : t.Keyed) (locally : ∀ b e, t.slots.get? b = some e → e.Local node)
include keyed locally

/-- Other slots make no call about an attribute. -/
theorem exists_record_elsewhere {entries : List (Attribute × Entry κ)} (r : Recorder)
    (h : ∀ x ∈ entries, t.slots.get? x.1 = some x.2 ∧ x.1 ≠ a) :
    ∃ cs, (settle node entries r).2 = r.record cs ∧ ∀ c ∈ cs, c.target ≠ a := by
  apply exists_record_settle
  intro x hx
  rcases h x hx with ⟨hget, hne⟩
  have hlocal : x.2.Local node := locally x.1 x.2 hget
  have htarget : ∀ c : Call, c.target = x.2.target → c.target ≠ a := by
    intro c hc
    rw [hc, keyed x.1 x.2 hget]
    exact hne
  exact ⟨fun v => (hlocal.1 v).mono htarget, hlocal.2.mono htarget⟩

/-- The calls that others make, before and after the turn of an attribute, are not about it. -/
theorem exists_record_around (p : Recorder) (a : Attribute) :
    ∃ cs ds, t.peerAt node p a = p.record cs ∧
      (t.commit node p).2.2 = (settle node (t.slots.own a) (t.peerAt node p a)).2.record ds ∧
      (∀ c ∈ cs, c.target ≠ a) ∧ ∀ c ∈ ds, c.target ≠ a := by
  rcases exists_record_elsewhere keyed locally p
    (fun x (hx : x ∈ t.slots.before a) => AttributeMap.entry_elsewhere (.inl hx))
    with ⟨cs, hbefore, hcs⟩
  rcases exists_record_elsewhere keyed locally
    (settle node (t.slots.own a) (t.peerAt node p a)).2
    (fun x (hx : x ∈ t.slots.after a) => AttributeMap.entry_elsewhere (.inr hx))
    with ⟨ds, hafter, hds⟩
  refine ⟨cs, ds, hbefore, ?_, hcs, hds⟩
  have hpeer : (t.commit node p).2.2 = (settle node t.slots.entries p).2 := rfl
  rw [hpeer, t.slots.entries_eq a, settle_append, settle_append]
  exact hafter

/-- The slot of an attribute makes calls about it alone. -/
theorem calls_own {e : Entry κ} (h : t.slots.get? a = some e) :
    e.Calls (fun c => c.target = a) node := by
  have hlocal : e.Local node := locally a e h
  rwa [Entry.Local, keyed a e h] at hlocal

/-- Against recorders that answer alike about an attribute its slot is settled in the same way. -/
theorem commit_own_alike {e : Entry κ} (h : t.slots.get? a = some e)
    (alike : Recorder.Alike a p q) : (e.commit node p).1 = (e.commit node q).1 :=
  (alike.simulation.commit_entry (calls_own keyed locally h) ⟨[], by simp⟩).1

/-- Recorders that answer alike about an attribute get the same calls from its slot. -/
theorem exists_record_own_alike (alike : Recorder.Alike a p q) :
    ∃ cs, (settle node (t.slots.own a) p).2 = p.record cs ∧
      (settle node (t.slots.own a) q).2 = q.record cs := by
  have hcalls : ∀ x ∈ t.slots.own a, x.2.Calls (fun c => c.target = a) node := by
    intro x hx
    rcases List.mem_map.1 hx with ⟨e, he, rfl⟩
    exact calls_own keyed locally (Option.mem_toList.1 he)
  exact (alike.simulation.settle hcalls ⟨[], by simp⟩).2

end Around

/-- The calls about an attribute are the same in two lists that hold the same calls between
others. -/
theorem filter_around {cs cs' ds ds' : List Call} (own : List Call) (hcs : ∀ c ∈ cs, c.target ≠ a)
    (hcs' : ∀ c ∈ cs', c.target ≠ a) (hds : ∀ c ∈ ds, c.target ≠ a)
    (hds' : ∀ c ∈ ds', c.target ≠ a) :
    (cs ++ (own ++ ds)).filter (·.target = a) = (cs' ++ (own ++ ds')).filter (·.target = a) := by
  have hnil : ∀ {xs : List Call}, (∀ c ∈ xs, c.target ≠ a) → xs.filter (·.target = a) = [] := by
    intro xs hxs
    rw [List.filter_eq_nil_iff]
    simpa using hxs
  simp only [List.filter_append, hnil hcs, hnil hcs', hnil hds, hnil hds']

/-- Noninterference: for two tables that hold the same slot of an attribute, or none, and two
recorders that answer alike about it, a pass makes the same calls about the attribute, leaves the
same slot, drops it from both tables or from neither, and reports the same failure of it. The other
slots, how they fail, and what the recorders do about them do not matter. -/
theorem commit_noninterference (tkeyed : t.Keyed) (ukeyed : u.Keyed)
    (tlocal : ∀ b e, t.slots.get? b = some e → e.Local node)
    (ulocal : ∀ b e, u.slots.get? b = some e → e.Local node)
    (slot : t.slots.get? a = u.slots.get? a) (alike : Recorder.Alike a p q) :
    (∃ cs ds, (t.commit node p).2.2.calls = p.calls ++ cs ∧
      (u.commit node q).2.2.calls = q.calls ++ ds ∧
      cs.filter (·.target = a) = ds.filter (·.target = a)) ∧
    (t.commit node p).2.1.slots.get? a = (u.commit node q).2.1.slots.get? a ∧
    (a ∈ (t.commit node p).1.expired ↔ a ∈ (u.commit node q).1.expired) ∧
    (t.commit node p).1.errors.filter (·.target = a) =
      (u.commit node q).1.errors.filter (·.target = a) := by
  rcases exists_record_around tkeyed tlocal p a with ⟨cs, ds, hp, htcommit, hcs, hds⟩
  rcases exists_record_around ukeyed ulocal q a with ⟨cs', ds', hq, hucommit, hcs', hds'⟩
  -- when its turn comes, the slot finds recorders that answer alike
  have halike : Recorder.Alike a (t.peerAt node p a) (u.peerAt node q a) := by
    rw [hp, hq]
    exact alike.record cs cs'
  rcases exists_record_own_alike tkeyed tlocal halike with ⟨own, htown, huown⟩
  have hsame : t.slots.own a = u.slots.own a := by
    unfold AttributeMap.own
    rw [slot]
  have hsettlement : t.settlement? node p a = u.settlement? node q a := by
    unfold settlement?
    cases hu : u.slots.get? a with
    | none => rw [slot, hu]; rfl
    | some e =>
      have ht : t.slots.get? a = some e := slot.trans hu
      rw [ht]
      exact congrArg some (commit_own_alike tkeyed tlocal ht halike)
  refine ⟨⟨cs ++ (own ++ ds), cs' ++ (own ++ ds'), ?_, ?_, filter_around own hcs hcs' hds hds'⟩,
    ?_, ?_, ?_⟩
  · rw [htcommit, htown, hp]
    simp
  · rw [hucommit, ← hsame, huown, hq]
    simp
  · rw [get?_commit, get?_commit, hsettlement]
  · rw [mem_expired_commit, mem_expired_commit, hsettlement]
  · rw [errors_commit tkeyed, errors_commit ukeyed, hsettlement]

/-- A write of a hover effect is refused. It ends the same way and makes the same call, whether a
color is refused beside it or a comparison panics. -/
theorem commit_noninterference_hover :
    let empty : Table (Standard.Kind ⊕ Probe) := ∅
    let t := (empty.stage (.inr .hover) (some (2 : Int))).stage (.inr .tint) (some (Color.argb 3))
    let p : Recorder := { failing := [.backgroundColor, .hoverEffect] }
    let before := (empty.stage (.inr .panicky) (some (0 : Nat))).commit ⟨1⟩ ({} : Recorder)
    let u := (before.2.1.stage (.inr .panicky) (some (1 : Nat))).stage (.inr .hover)
      (some (2 : Int))
    let q := before.2.2.failOn .hoverEffect
    (∃ cs ds, (t.commit ⟨1⟩ p).2.2.calls = p.calls ++ cs ∧
      (u.commit ⟨1⟩ q).2.2.calls = q.calls ++ ds ∧
      cs.filter (·.target = .hoverEffect) = ds.filter (·.target = .hoverEffect)) ∧
    (t.commit ⟨1⟩ p).2.1.slots.get? .hoverEffect = (u.commit ⟨1⟩ q).2.1.slots.get? .hoverEffect ∧
    (.hoverEffect ∈ (t.commit ⟨1⟩ p).1.expired ↔ .hoverEffect ∈ (u.commit ⟨1⟩ q).1.expired) ∧
    (t.commit ⟨1⟩ p).1.errors.filter (·.target = .hoverEffect) =
      (u.commit ⟨1⟩ q).1.errors.filter (·.target = .hoverEffect) := by
  intro empty t p before u q
  have ht : t.Reachable := .stage (.stage .empty _ _) _ _
  have hu : u.Reachable := .stage (.stage (.commit (.stage .empty _ _) _ _) _ _) _ _
  have hbefore : before.2.1.slots.get? .hoverEffect = none := get?_commit_of_none rfl ⟨1⟩ _
  have slot : t.slots.get? .hoverEffect = u.slots.get? .hoverEffect := by
    simp only [t, u, get?_stage, hbefore]
    rfl
  have alike : Recorder.Alike .hoverEffect p q := ⟨by decide, by decide⟩
  exact commit_noninterference ht.keyed hu.keyed (fun _ e _ => Probe.entry_isLocal ⟨1⟩ e)
    (fun _ e _ => Probe.entry_isLocal ⟨1⟩ e) slot alike

end Table

end Reconciler
