import Reconciler.Probe
import Reconciler.Proofs.Pass
import Reconciler.Proofs.Reachable
import Reconciler.Proofs.Recording

/-!
# The calls of a pass

Most slots call the peer once: a value reaches it in one call that writes the slot's own attribute,
and the default in one that resets it (`Entry.CallsOnce`). What such a slot makes of the answer is
its own affair: it may forward it, as the standard ones do, or turn one error into another.

`Entry.Owes` says which call a pass owes to such a slot, by what waits in it and by the comparison
with the committed value. The calls that a recorder gets in a pass are those, each once and in table
order (`Table.commit_journal`). A call that fails or panics is made all the same, and keeps no other
from being made.
-/

namespace Reconciler

variable {κ : Type} [Catalog κ] {node : NodeHandle}

namespace Entry

/-- A slot that brings a value to the peer in one call, which writes its own attribute, and then
ends with whatever it makes of the answer. The default it brings in one call, which resets it. -/
structure CallsOnce (node : NodeHandle) (e : Entry κ) : Prop where
  apply_eq (v : Catalog.Value e.kind) :
    ∃ (xs : List WireValue) (finish : Except PeerError Unit → Except PeerError Unit),
      e.policy.apply node v = .call (.apply node e.target xs) fun answer => .done (finish answer)
  reset_eq : e.policy.reset node = .single (.reset node e.target)

/-- The call that a pass owes to a slot that calls the peer once. No call is owed when nothing
waits, when the value is judged unchanged, and when the comparison panics. -/
inductive Owes (node : NodeHandle) : Entry κ → Call → Prop where
  -- The default is asked for.
  | reset {k : κ} {c : Option (Catalog.Value k)} :
      Owes node ⟨k, ⟨some .unset, c⟩⟩ (.reset node (Catalog.policy k).target)
  -- A value is asked for, and nothing is committed.
  | first {k : κ} {v : Catalog.Value k} {xs : List WireValue}
      {finish : Except PeerError Unit → Except PeerError Unit}
      (args : (Catalog.policy k).apply node v =
        .call (.apply node (Catalog.policy k).target xs) fun answer => .done (finish answer)) :
      Owes node ⟨k, ⟨some (.value v), none⟩⟩ (.apply node (Catalog.policy k).target xs)
  -- A value is asked for that differs from the committed one.
  | changed {k : κ} {v w : Catalog.Value k} {xs : List WireValue}
      {finish : Except PeerError Unit → Except PeerError Unit}
      (judged : (Catalog.policy k).judge v w = .changed)
      (args : (Catalog.policy k).apply node v =
        .call (.apply node (Catalog.policy k).target xs) fun answer => .done (finish answer)) :
      Owes node ⟨k, ⟨some (.value v), some w⟩⟩ (.apply node (Catalog.policy k).target xs)

theorem Owes.node_eq {e : Entry κ} {c : Call} (h : e.Owes node c) : c.node = node := by
  cases h <;> rfl

theorem Owes.target_eq {e : Entry κ} {c : Call} (h : e.Owes node c) : c.target = e.target := by
  cases h <;> rfl

section Owed

variable {k : κ} {v : Catalog.Value k} {c : Option (Catalog.Value k)} {call : Call}

theorem not_owes_idle : ¬ (Entry.mk k ⟨none, c⟩).Owes node call := by
  intro h
  cases h

theorem owes_unset_iff :
    (Entry.mk k ⟨some .unset, c⟩).Owes node call ↔
      call = .reset node (Catalog.policy k).target := by
  constructor
  · intro h
    cases h
    rfl
  · intro h
    rw [h]
    exact .reset

/-- To a value that is judged changed, or has nothing to be compared with, a write is owed. -/
theorem owes_value_iff {xs : List WireValue}
    {finish : Except PeerError Unit → Except PeerError Unit}
    (judged : (Catalog.policy k).verdict v c = .changed)
    (args : (Catalog.policy k).apply node v =
      .call (.apply node (Catalog.policy k).target xs) fun answer => .done (finish answer)) :
    (Entry.mk k ⟨some (.value v), c⟩).Owes node call ↔
      call = .apply node (Catalog.policy k).target xs := by
  constructor
  · intro h
    cases h with
    | first args' =>
      have hcall := (Script.call.inj (args.symm.trans args')).1
      exact hcall.symm
    | changed _ args' =>
      have hcall := (Script.call.inj (args.symm.trans args')).1
      exact hcall.symm
  · intro h
    rw [h]
    cases c with
    | none => exact .first args
    | some w => exact .changed judged args

theorem not_owes_value (judged : (Catalog.policy k).verdict v c ≠ .changed) :
    ¬ (Entry.mk k ⟨some (.value v), c⟩).Owes node call := by
  intro h
  cases h with
  | first => exact judged rfl
  | changed hjudge => exact judged hjudge

end Owed

namespace CallsOnce

variable {e : Entry κ} {r q : Recorder} {o : Outcome PeerError Unit}

/-- A recorder keeps the one call of a reset, and ends it in a panic on purpose only. -/
theorem run_reset (he : e.CallsOnce node) (h : (e.policy.reset node).run r = (o, q)) :
    q = r.record [.reset node e.target] ∧
      ∀ panic, o = .panicked panic → e.target ∈ r.panicking := by
  have hscript : e.policy.reset node = .call (.reset node e.target) fun r => .done (id r) :=
    he.reset_eq
  rw [hscript] at h
  exact Recorder.run_call h

/-- A recorder keeps the one call of a write, and ends it in a panic on purpose only. -/
theorem run_apply (he : e.CallsOnce node) {v : Catalog.Value e.kind}
    (h : (e.policy.apply node v).run r = (o, q)) :
    ∃ (xs : List WireValue) (finish : Except PeerError Unit → Except PeerError Unit),
      e.policy.apply node v =
        .call (.apply node e.target xs) (fun answer => .done (finish answer)) ∧
      q = r.record [.apply node e.target xs] ∧
      ∀ panic, o = .panicked panic → e.target ∈ r.panicking := by
  rcases he.apply_eq v with ⟨xs, finish, hscript⟩
  refine ⟨xs, finish, hscript, ?_⟩
  rw [hscript] at h
  exact Recorder.run_call h

end CallsOnce

/-- The commit of a slot that calls the peer once makes the call that is owed to it, if one is, and
no other. -/
theorem Settles.exists_owed {e : Entry κ} {r q : Recorder} {s : Settlement κ}
    (hs : e.Settles node r s q) (he : e.CallsOnce node) :
    ∃ owed : Option Call, q = r.record owed.toList ∧ ∀ c, e.Owes node c ↔ owed = some c := by
  have hnone : (∀ c, ¬ e.Owes node c) →
      ∃ owed : Option Call, r = r.record owed.toList ∧ ∀ c, e.Owes node c ↔ owed = some c := by
    intro h
    refine ⟨none, by simp, ?_⟩
    intro c
    simp [h c]
  -- the six ways that reach the peer differ only in the call and in why it is owed
  have hone : ∀ {call : Call}, q = r.record [call] → (∀ c, e.Owes node c ↔ c = call) →
      ∃ owed : Option Call, q = r.record owed.toList ∧ ∀ c, e.Owes node c ↔ owed = some c := by
    intro call hq h
    refine ⟨some call, hq, ?_⟩
    intro c
    rw [h c, Option.some.injEq, eq_comm]
  cases hs with
  | idle => exact hnone fun c => not_owes_idle
  | unchanged judged =>
    exact hnone fun c => not_owes_value (by rw [judged]; exact Verdict.noConfusion)
  | comparisonPanicked judged =>
    exact hnone fun c => not_owes_value (by rw [judged]; exact Verdict.noConfusion)
  | expired h => exact hone (he.run_reset h).1 fun c => owes_unset_iff
  | resetFailed h => exact hone (he.run_reset h).1 fun c => owes_unset_iff
  | resetPanicked h => exact hone (he.run_reset h).1 fun c => owes_unset_iff
  | applied judged h =>
    rcases he.run_apply h with ⟨xs, finish, args, hq, -⟩
    exact hone hq fun c => owes_value_iff judged args
  | applyFailed judged h =>
    rcases he.run_apply h with ⟨xs, finish, args, hq, -⟩
    exact hone hq fun c => owes_value_iff judged args
  | applyPanicked judged h =>
    rcases he.run_apply h with ⟨xs, finish, args, hq, -⟩
    exact hone hq fun c => owes_value_iff judged args

end Entry

/-- The slots of the standard catalog call the peer once, and those of all probes but one. -/
theorem Probe.entry_callsOnce {e : Entry (Standard.Kind ⊕ Probe)} (h : e.kind ≠ .inr .fallible)
    (node : NodeHandle) : e.CallsOnce node := by
  rcases e with ⟨k | k, slot⟩
  · exact ⟨fun v => ⟨DirectCatalog.args k v, id, DirectCatalog.apply_eq k node v⟩,
      DirectCatalog.reset_eq k node⟩
  · cases k with
    | fallible => exact absurd rfl h
    | _ => exact ⟨fun v => ⟨_, id, rfl⟩, rfl⟩

namespace Table

/-- Settling slots makes the calls that are owed to them, in their order. -/
theorem exists_owed_settle {entries : List (Attribute × Entry κ)}
    (keyed : ∀ x ∈ entries, x.2.target = x.1) (once : ∀ x ∈ entries, x.2.CallsOnce node)
    (r : Recorder) :
    ∃ cs, (settle node entries r).2 = r.record cs ∧
      (cs.map Call.target).Sublist (entries.map (·.1)) ∧
      ∀ c, c ∈ cs ↔ ∃ x ∈ entries, x.2.Owes node c := by
  induction entries generalizing r with
  | nil => exact ⟨[], by simp [settle]⟩
  | cons x entries ih =>
    have hs := x.2.settles_commit node r
    rcases hs.exists_owed (once x (.head _)) with ⟨owed, hcommit, howed⟩
    rcases ih (fun y hy => keyed y (.tail _ hy)) (fun y hy => once y (.tail _ hy))
      (r.record owed.toList) with ⟨cs, hsettle, hsub, hcs⟩
    refine ⟨owed.toList ++ cs, ?_, ?_, ?_⟩
    · simp only [settle, hcommit, hsettle, Recorder.record_record]
    · -- a slot adds at most one call, about its own attribute
      have hfirst : (owed.toList.map Call.target).Sublist [x.1] := by
        cases owed with
        | none => simp
        | some c =>
          have htarget : c.target = x.1 := by
            rw [((howed c).2 rfl).target_eq, keyed x (.head _)]
          simp [htarget]
      rw [List.map_append]
      exact hfirst.append hsub
    · intro c
      rw [List.mem_append, hcs c, Option.mem_toList, ← howed c]
      simp

/-- The journal of a pass over slots that call the peer once, whatever the recorder fails on: calls
about the node, in table order and no two about one attribute, and they are the calls that are owed
to the slots. To a value with nothing committed a call is owed without a comparison: under any other
one its slot is committed in the same way. -/
theorem commit_journal {t : Table κ} (keyed : t.Keyed)
    (once : ∀ a e, t.slots.get? a = some e → e.CallsOnce node) (r : Recorder) :
    (∃ cs, (t.commit node r).2.2.calls = r.calls ++ cs ∧
      (cs.map Call.target).Pairwise (· < ·) ∧ (∀ c ∈ cs, c.node = node) ∧
      ∀ c, c ∈ cs ↔ ∃ a e, t.slots.get? a = some e ∧ e.Owes node c) ∧
    ∀ (k : κ) (v : Catalog.Value k) (judge : Catalog.Value k → Catalog.Value k → Verdict),
      Slot.commit { Catalog.policy k with judge := judge } node ⟨some (.value v), none⟩ r =
        Slot.commit (Catalog.policy k) node ⟨some (.value v), none⟩ r := by
  refine ⟨?_, fun k v judge => rfl⟩
  have hget : ∀ x ∈ t.slots.entries, t.slots.get? x.1 = some x.2 :=
    fun x hx => AttributeMap.mem_entries.1 hx
  rcases exists_owed_settle (fun x hx => keyed x.1 x.2 (hget x hx))
    (fun x hx => once x.1 x.2 (hget x hx)) r with ⟨cs, hsettle, hsub, hcs⟩
  have hmem : ∀ c, c ∈ cs ↔ ∃ a e, t.slots.get? a = some e ∧ e.Owes node c := by
    intro c
    rw [hcs c]
    simp only [Prod.exists, AttributeMap.mem_entries]
  refine ⟨cs, ?_, ?_, ?_, hmem⟩
  · have hpeer : (t.commit node r).2.2 = r.record cs := hsettle
    rw [hpeer, Recorder.calls_record]
  · rw [AttributeMap.map_fst_entries] at hsub
    exact t.slots.sorted_keys.sublist hsub
  · intro c hc
    rcases (hmem c).1 hc with ⟨a, e, -, howes⟩
    exact howes.node_eq

/-- One number is compared in vain and another is equal to the committed one; a width is written for
the first time, although the peer panics on it, and a color is reset. -/
theorem commit_journal_four_slots :
    let before :=
      (((∅ : Table (Standard.Kind ⊕ Probe)).stage (.inr .panicky) (some (0 : Nat))).stage
        (.inr .hover) (some (2 : Int))).commit ⟨1⟩ ({} : Recorder)
    let t := (((before.2.1.stage (.inr .panicky) (some (1 : Nat))).stage (.inr .hover)
      (some (2 : Int))).stage (.inl (.keyed .width)) (some (Length.vp 1))).stage (.inr .tint) none
    let p : Recorder := { failing := [.backgroundColor], panicking := [.width] }
    ∃ cs, (t.commit ⟨1⟩ p).2.2.calls = p.calls ++ cs ∧
      .apply ⟨1⟩ .width [.number 1] ∈ cs ∧ .reset ⟨1⟩ .backgroundColor ∈ cs ∧
      ∀ c ∈ cs, c.target ≠ .opacity ∧ c.target ≠ .hoverEffect := by
  intro before t p
  have ht : t.Reachable := .stage (.stage (.stage (.stage (.commit
    (.stage (.stage .empty _ _) _ _) _ _) _ _) _ _) _ _) _ _
  have once : ∀ a e, t.slots.get? a = some e → e.CallsOnce ⟨1⟩ := by
    intro a e he
    apply Probe.entry_callsOnce
    -- the one probe that does otherwise would be kept under the font
    intro hkind
    have hfont : Attribute.font = a := by
      rw [← ht.keyed a e he, Entry.target, Entry.policy, hkind]
      rfl
    subst hfont
    cases he
  rcases (commit_journal ht.keyed once p).1 with ⟨cs, hcalls, -, -, hcs⟩
  refine ⟨cs, hcalls, ?_, ?_, ?_⟩
  · exact (hcs _).2 ⟨.width, _, rfl, .first rfl⟩
  · exact (hcs _).2 ⟨.backgroundColor, _, rfl, .reset⟩
  · intro c hc
    rcases (hcs c).1 hc with ⟨a, e, he, howes⟩
    rw [howes.target_eq, ht.keyed a e he]
    constructor
    · rintro rfl
      cases he
      exact Entry.not_owes_value (by decide) howes
    · rintro rfl
      cases he
      exact Entry.not_owes_value (by decide) howes

end Table

end Reconciler
