import Mathlib.Data.List.Nodup
import Reconciler.Proofs.Journal

/-!
# The report accounts for everything

A report consists of two counters and two lists, and the lists overlap: a slot that fails may be
dropped or not. What they say together of a pass is `Report.Accounts`. Every slot in which a request
waited is counted once, every slot that is missing afterwards is listed, and the calls that the peer
got can be read off, for each slot makes at most one.

The pass is taken apart slot by slot. What the settlement of one slot adds to each of the counters
is told by cases on how it ends (`Entry.Settles.tally`, `Entry.Settles.exists_calls`), and the sums
are taken over the list of the settlements.
-/

namespace Reconciler

variable {κ : Type} [Catalog κ] {node : NodeHandle}

/-- Whether a failure is a panic, and not an error that the slot ended with. -/
def CommitError.isPanic : CommitError → Bool
  | panicked _ _ => true
  | _ => false

namespace Report

/-- The attributes whose slots failed. -/
def failed (r : Report) : List Attribute := r.errors.map (·.target)

/-- The attributes whose slots were dropped and did not fail. -/
def gone (r : Report) : List Attribute := r.expired.filter (· ∉ r.failed)

end Report

namespace Entry

/-- Whether the comparison of the staged with the committed value panics. -/
def comparisonPanics (e : Entry κ) : Bool :=
  match e.slot.staged with
  | some (.value v) =>
    match e.policy.verdict v e.slot.committed with
    | .panicked _ => true
    | _ => false
  | _ => false

end Entry

namespace Table

/-- In how many slots a request waits. -/
def waiting (t : Table κ) : Nat := t.slots.entries.countP (·.2.slot.staged.isSome)

/-- Whether there is a slot for an attribute and its comparison panics. -/
def comparisonPanics (t : Table κ) (a : Attribute) : Bool :=
  (t.slots.get? a).any Entry.comparisonPanics

end Table

/-- What a report says of a pass over the table `before` that left the table `after`, against a peer
that panics on the attributes in `panicking` and got `calls` in the pass. -/
structure Report.Accounts (r : Report) (before after : Table κ) (panicking : List Attribute)
    (calls : List Call) : Prop where
  /-- Every slot in which a request waited was applied, was found unchanged, is gone or failed. -/
  waiting : r.applied + r.unchanged + r.gone.length + r.errors.length = before.waiting
  /-- As many slots are missing as expired. -/
  size : after.size + r.expired.length = before.size
  /-- The slots that are missing are those that expired. -/
  attributes : after.attributes = before.attributes.filter (· ∉ r.expired)
  sorted_expired : r.expired.Pairwise (· < ·)
  sorted_failed : r.failed.Pairwise (· < ·)
  /-- A slot that failed was dropped as well if the default was asked for, or nothing committed. -/
  expired_and_failed (a : Attribute) : a ∈ r.expired ∧ a ∈ r.failed ↔
    a ∈ r.failed ∧ ∃ e, before.slots.get? a = some e ∧
      (e.slot.staged = some .unset ∨ e.slot.committed = none)
  /-- The peer was called once for each slot that was applied, is gone or failed with an error, and
  for each that failed in a panic of the peer. -/
  calls : calls.length = r.applied + r.gone.length + r.errors.countP (!·.isPanic) +
    r.errors.countP fun err => err.isPanic && !before.comparisonPanics err.target
  /-- What panicked was the comparison, or the peer on purpose. -/
  panics : ∀ err ∈ r.errors, err.isPanic = true →
    before.comparisonPanics err.target = true ∨ err.target ∈ panicking

/-- Whether a slot was dropped and did not fail. -/
def Settlement.isGone (s : Settlement κ) : Bool := s.drops && s.error?.isNone

namespace Entry.Settles

variable {e : Entry κ}

/-- A slot in which a request waits adds one to one of the counters, and others add nothing. -/
theorem tally {π : Type} [Peer π] {p q : π} {s : Settlement κ} (hs : e.Settles node p s q) :
    (if s.isApplied then 1 else 0) + (if s.isUnchanged then 1 else 0) +
      (if s.isGone then 1 else 0) + (if s.error?.isSome then 1 else 0) =
      if e.slot.staged.isSome then 1 else 0 := by
  -- a failure is counted as one, whether its slot is dropped or not
  have hfailed : ∀ (err : CommitError) (f : Entry κ),
      (if (Settlement.mk (.error err) f).isApplied then 1 else 0) +
        (if (Settlement.mk (.error err) f).isUnchanged then 1 else 0) +
        (if (Settlement.mk (.error err) f).isGone then 1 else 0) +
        (if (Settlement.mk (.error err) f).error?.isSome then 1 else 0) = 1 := by
    intro err f
    simp [Settlement.isApplied, Settlement.isUnchanged, Settlement.isGone, Settlement.error?]
  cases hs with
  | idle => rfl
  | expired => rfl
  | unchanged => rfl
  | applied => rfl
  | resetFailed => exact hfailed _ _
  | resetPanicked => exact hfailed _ _
  | comparisonPanicked => exact hfailed _ _
  | applyFailed => exact hfailed _ _
  | applyPanicked => exact hfailed _ _

/-- A failure drops its slot if the default was asked for, or if nothing is committed. -/
theorem drops_iff_of_failed {π : Type} [Peer π] {p q : π} {s : Settlement κ}
    (hs : e.Settles node p s q) (failed : s.error?.isSome = true) :
    s.drops = true ↔ e.slot.staged = some .unset ∨ e.slot.committed = none := by
  cases hs with
  | idle => cases failed
  | expired => cases failed
  | unchanged => cases failed
  | applied => cases failed
  | resetFailed => exact iff_of_true rfl (.inl rfl)
  | resetPanicked => exact iff_of_true rfl (.inl rfl)
  | comparisonPanicked => simp [Settlement.drops, Slot.isVacant]
  | applyFailed => simp [Settlement.drops, Slot.isVacant]
  | applyPanicked => simp [Settlement.drops, Slot.isVacant]

section Calls

variable {r q : Recorder} {s : Settlement κ}

/-- A slot calls the peer once if it is applied, gone, or failed otherwise than by its
comparison. -/
theorem exists_calls (hs : e.Settles node r s q) (he : e.CallsOnce node) :
    ∃ cs, q = r.record cs ∧ cs.length =
      (if s.isApplied then 1 else 0) + (if s.isGone then 1 else 0) +
        (if s.error?.any (!·.isPanic) then 1 else 0) +
        (if s.error?.any fun err => err.isPanic && !e.comparisonPanics then 1 else 0) := by
  have hnone : r = r.record [] := by rw [Recorder.record_nil]
  cases hs with
  | idle => exact ⟨[], hnone, rfl⟩
  | unchanged => exact ⟨[], hnone, rfl⟩
  | comparisonPanicked judged =>
    refine ⟨[], hnone, ?_⟩
    simp [Settlement.isApplied, Settlement.isGone, Settlement.error?, comparisonPanics, policy,
      judged, CommitError.ofPanic, CommitError.isPanic]
  | expired h => exact ⟨_, (he.run_reset h).1, rfl⟩
  | resetFailed h => exact ⟨_, (he.run_reset h).1, rfl⟩
  | resetPanicked h => exact ⟨_, (he.run_reset h).1, rfl⟩
  | applied _ h =>
    rcases he.run_apply h with ⟨xs, -, -, hq, -⟩
    exact ⟨_, hq, rfl⟩
  | applyFailed _ h =>
    rcases he.run_apply h with ⟨xs, -, -, hq, -⟩
    refine ⟨_, hq, ?_⟩
    simp [Settlement.isApplied, Settlement.isGone, Settlement.error?, CommitError.isPanic]
  | applyPanicked judged h =>
    rcases he.run_apply h with ⟨xs, -, -, hq, -⟩
    refine ⟨_, hq, ?_⟩
    simp [Settlement.isApplied, Settlement.isGone, Settlement.error?, comparisonPanics, policy,
      judged, CommitError.ofPanic, CommitError.isPanic]

/-- A slot fails in a panic if its comparison panics, or the peer on its attribute. -/
theorem panics (hs : e.Settles node r s q) (he : e.CallsOnce node) {err : CommitError}
    (failed : s.error? = some err) (panic : err.isPanic = true) :
    e.comparisonPanics = true ∨ err.target ∈ r.panicking := by
  rw [hs.target_error failed]
  cases hs with
  | idle => cases failed
  | expired => cases failed
  | unchanged => cases failed
  | applied => cases failed
  | resetFailed => cases failed; cases panic
  | applyFailed => cases failed; cases panic
  | resetPanicked h => exact .inr ((he.run_reset h).2 _ rfl)
  | applyPanicked _ h =>
    rcases he.run_apply h with ⟨-, -, -, -, hpanic⟩
    exact .inr (hpanic _ rfl)
  | comparisonPanicked judged => exact .inl (by simp only [comparisonPanics, policy, judged])

end Calls

end Entry.Settles

namespace Table

variable {t : Table κ} {r : Recorder}

/-- The counters of the slots that are settled add up to the number of those in which a request
waited. -/
theorem settle_tally {π : Type} [Peer π] (node : NodeHandle)
    (entries : List (Attribute × Entry κ)) (p : π) :
    (settle node entries p).1.countP (·.2.isApplied) +
        (settle node entries p).1.countP (·.2.isUnchanged) +
        (settle node entries p).1.countP (·.2.isGone) +
        (settle node entries p).1.countP (·.2.error?.isSome) =
      entries.countP (·.2.slot.staged.isSome) := by
  induction entries generalizing p with
  | nil => rfl
  | cons x entries ih =>
    have hfirst := (x.2.settles_commit node p).tally
    have hrest := ih (x.2.commit node p).2
    simp only [settle, List.countP_cons]
    omega

/-- The calls that are made for slots of a table, each of which calls the peer once. -/
theorem exists_calls_settle {entries : List (Attribute × Entry κ)}
    (hget : ∀ x ∈ entries, t.slots.get? x.1 = some x.2)
    (once : ∀ x ∈ entries, x.2.CallsOnce node) (r : Recorder) :
    ∃ cs, (settle node entries r).2 = r.record cs ∧ cs.length =
      (settle node entries r).1.countP (·.2.isApplied) +
        (settle node entries r).1.countP (·.2.isGone) +
        (settle node entries r).1.countP (·.2.error?.any (!·.isPanic)) +
        (settle node entries r).1.countP fun x =>
          x.2.error?.any fun err => err.isPanic && !t.comparisonPanics x.1 := by
  induction entries generalizing r with
  | nil => exact ⟨[], by rw [Recorder.record_nil]; rfl, rfl⟩
  | cons x entries ih =>
    have hpanics : t.comparisonPanics x.1 = x.2.comparisonPanics := by
      rw [comparisonPanics, hget x (.head _)]
      rfl
    rcases (x.2.settles_commit node r).exists_calls (once x (.head _)) with ⟨cs, hcommit, hcs⟩
    rcases ih (fun y hy => hget y (.tail _ hy)) (fun y hy => once y (.tail _ hy)) (r.record cs)
      with ⟨ds, hsettle, hds⟩
    refine ⟨cs ++ ds, ?_, ?_⟩
    · simp only [settle, hcommit, hsettle, Recorder.record_record]
    · simp only [settle, hcommit, List.countP_cons, List.length_append, hpanics]
      omega

section Lists

variable {π : Type} [Peer π] {p : π} {a : Attribute}

/-- The failure in a settlement of a pass is one of the attribute that is settled. -/
theorem target_error_of_mem_settle (keyed : t.Keyed) {x : Attribute × Settlement κ}
    (hx : x ∈ (settle node t.slots.entries p).1) {err : CommitError} (h : x.2.error? = some err) :
    err.target = x.1 := by
  rcases x with ⟨b, s⟩
  rcases settles_of_mem_settle hx with ⟨e, p', q', hmem, hs⟩
  exact (hs.target_error h).trans (keyed b e (AttributeMap.mem_entries.1 hmem))

/-- The attributes that failed are listed in the order in which they were settled. -/
theorem failed_commit (keyed : t.Keyed) :
    (t.commit node p).1.failed =
      ((settle node t.slots.entries p).1.filter (·.2.error?.isSome)).map (·.1) := by
  have hfailed : (t.commit node p).1.failed =
      ((settle node t.slots.entries p).1.filterMap (·.2.error?)).map (·.target) := rfl
  have htarget : ∀ x ∈ (settle node t.slots.entries p).1, ∀ err, x.2.error? = some err →
      err.target = x.1 := fun x hx err h => target_error_of_mem_settle keyed hx h
  rw [hfailed]
  generalize (settle node t.slots.entries p).1 = settled at htarget ⊢
  induction settled with
  | nil => rfl
  | cons x settled ih =>
    have hrest := ih fun y hy => htarget y (.tail _ hy)
    cases herr : x.2.error? with
    | none => simpa [herr] using hrest
    | some err => simpa [herr, htarget x (.head _) err herr] using hrest

theorem mem_failed_commit (keyed : t.Keyed) :
    a ∈ (t.commit node p).1.failed ↔
      ∃ s, t.settlement? node p a = some s ∧ s.error?.isSome = true := by
  rw [failed_commit keyed]
  simp only [List.mem_map, List.mem_filter, Prod.exists, exists_and_right, exists_eq_right,
    mem_settle_iff]

/-- Of the settlements of a pass those are gone whose attributes are listed so. -/
theorem length_gone_commit (keyed : t.Keyed) :
    (t.commit node p).1.gone.length =
      (settle node t.slots.entries p).1.countP (·.2.isGone) := by
  have hexpired : (t.commit node p).1.expired =
      ((settle node t.slots.entries p).1.filter (·.2.drops)).map (·.1) := rfl
  rw [Report.gone, hexpired, ← List.countP_eq_length_filter, List.countP_map, List.countP_filter]
  apply List.countP_congr
  rintro ⟨b, s⟩ hx
  have hb := mem_settle_iff.1 hx
  simp [Settlement.isGone, mem_failed_commit keyed, hb, and_comm]

/-- A failure is counted with the attribute that is settled. -/
theorem countP_errors_commit (keyed : t.Keyed) (node : NodeHandle) (p : π)
    (P : Attribute → CommitError → Bool) :
    (t.commit node p).1.errors.countP (fun err => P err.target err) =
      (settle node t.slots.entries p).1.countP fun x => x.2.error?.any (P x.1) := by
  have herrors : (t.commit node p).1.errors =
      (settle node t.slots.entries p).1.filterMap (·.2.error?) := rfl
  rw [herrors, List.countP_filterMap]
  apply List.countP_congr
  intro x hx
  cases herr : x.2.error? with
  | none => simp
  | some err => simp [target_error_of_mem_settle keyed hx herr]

/-- The attributes with a slot after a pass are those from before that did not expire. -/
theorem attributes_commit :
    (t.commit node p).2.1.attributes =
      t.attributes.filter (· ∉ (t.commit node p).1.expired) := by
  have hkeys : ∀ u : Table κ,
      u.attributes = Attribute.all.filter fun b => (u.slots.get? b).isSome := fun _ => rfl
  rw [hkeys, hkeys, List.filter_filter]
  apply List.filter_congr
  intro b _
  rw [get?_commit, Bool.eq_iff_iff]
  simp only [Bool.and_eq_true, decide_eq_true_eq, mem_expired_commit]
  cases hb : t.slots.get? b with
  | none => simp [settlement?, hb]
  | some e =>
    have hs : t.settlement? node p b = some (e.commit node (t.peerAt node p b)).1 := by
      rw [settlement?, hb]
      rfl
    rw [hs]
    simp [Settlement.remains]

/-- Whatever is picked from the settlements of a pass, it is attributes with a slot, in table
order. -/
theorem sublist_settle (P : Attribute × Settlement κ → Bool) :
    (((settle node t.slots.entries p).1.filter P).map (·.1)).Sublist t.attributes := by
  have hsub : (((settle node t.slots.entries p).1.filter P).map (·.1)).Sublist
      ((settle node t.slots.entries p).1.map (·.1)) := List.filter_sublist.map _
  rwa [map_fst_settle, AttributeMap.map_fst_entries] at hsub

theorem sublist_expired_commit : (t.commit node p).1.expired.Sublist t.attributes :=
  sublist_settle (·.2.drops)

theorem sublist_failed_commit (keyed : t.Keyed) :
    (t.commit node p).1.failed.Sublist t.attributes := by
  rw [failed_commit keyed]
  exact sublist_settle (·.2.error?.isSome)

/-- As many slots are missing after a pass as expired. -/
theorem size_commit :
    (t.commit node p).2.1.size + (t.commit node p).1.expired.length = t.size := by
  have hsub : (t.commit node p).1.expired.Sublist t.attributes := sublist_expired_commit
  have hnodup : t.attributes.Nodup := Attribute.nodup_all.filter _
  -- those that expired are all of the attributes that are listed as expired
  have hperm : (t.attributes.filter (· ∈ (t.commit node p).1.expired)).Perm
      (t.commit node p).1.expired := by
    rw [List.perm_ext_iff_of_nodup (hnodup.filter _) (hnodup.sublist hsub)]
    intro b
    simpa using fun hb => hsub.subset hb
  have hsize : (t.commit node p).2.1.size = (t.commit node p).2.1.attributes.length := rfl
  have hbefore : t.size = t.attributes.length := rfl
  have hsplit := List.length_eq_length_filter_add (l := t.attributes)
    (fun b => decide (b ∈ (t.commit node p).1.expired))
  rw [hsize, hbefore, attributes_commit, hsplit, hperm.length_eq, Nat.add_comm]
  simp

/-- A slot that failed was dropped as well if the default was asked for, or nothing committed. -/
theorem expired_and_failed_commit (keyed : t.Keyed) :
    a ∈ (t.commit node p).1.expired ∧ a ∈ (t.commit node p).1.failed ↔
      a ∈ (t.commit node p).1.failed ∧ ∃ e, t.slots.get? a = some e ∧
        (e.slot.staged = some .unset ∨ e.slot.committed = none) := by
  rw [and_comm]
  refine and_congr_right fun hfailed => ?_
  rcases (mem_failed_commit keyed).1 hfailed with ⟨s, hs, herr⟩
  rcases settles_of_settlement? hs with ⟨e, q, he, hsettles⟩
  rw [mem_expired_commit, hs, he]
  simpa using hsettles.drops_iff_of_failed herr

end Lists

/-- What panicked in a pass was a comparison, or the recorder on purpose. -/
theorem panics_commit (keyed : t.Keyed)
    (once : ∀ a e, t.slots.get? a = some e → e.CallsOnce node) {err : CommitError}
    (herr : err ∈ (t.commit node r).1.errors) (panic : err.isPanic = true) :
    t.comparisonPanics err.target = true ∨ err.target ∈ r.panicking := by
  rcases List.mem_filterMap.1 herr with ⟨⟨a, s⟩, hx, hs⟩
  rcases settles_of_settlement? (mem_settle_iff.1 hx) with ⟨e, q, he, hsettles⟩
  have htarget : err.target = a := (hsettles.target_error hs).trans (keyed a e he)
  have hcomparison : t.comparisonPanics err.target = e.comparisonPanics := by
    rw [comparisonPanics, htarget, he]
    rfl
  -- the slots before have called the recorder, and it still panics on the same attributes
  rcases exists_calls_settle (t := t)
    (fun x hx => (AttributeMap.entry_elsewhere (a := a) (.inl hx)).1)
    (fun x hx => once x.1 x.2 (AttributeMap.entry_elsewhere (a := a) (.inl hx)).1) r
    with ⟨ds, hbefore, -⟩
  rw [peerAt, hbefore] at hsettles
  rw [hcomparison]
  exact hsettles.panics (once a e he) hs panic

/-- The report of a pass accounts for all of it, whatever the recorder fails and panics on, if every
slot calls the peer once. -/
theorem commit_accounts (keyed : t.Keyed)
    (once : ∀ a e, t.slots.get? a = some e → e.CallsOnce node) (r : Recorder) :
    ∃ cs, (t.commit node r).2.2.calls = r.calls ++ cs ∧
      (t.commit node r).1.Accounts t (t.commit node r).2.1 r.panicking cs := by
  have hget : ∀ x ∈ t.slots.entries, t.slots.get? x.1 = some x.2 :=
    fun x hx => AttributeMap.mem_entries.1 hx
  rcases exists_calls_settle hget (fun x hx => once x.1 x.2 (hget x hx)) r with ⟨cs, hsettle, hcs⟩
  have hcalls : (t.commit node r).2.2 = r.record cs := hsettle
  have htally := settle_tally node t.slots.entries r
  have herrors : (t.commit node r).1.errors.length =
      (settle node t.slots.entries r).1.countP (·.2.error?.isSome) :=
    List.length_filterMap_eq_countP
  have hrefused := countP_errors_commit keyed node r fun _ err => !err.isPanic
  have hpanicked := countP_errors_commit keyed node r
    fun a err => err.isPanic && !t.comparisonPanics a
  refine ⟨cs, by rw [hcalls, Recorder.calls_record], ?_⟩
  constructor
  · rw [length_gone_commit keyed, herrors]
    exact htally
  · exact size_commit
  · exact attributes_commit
  · exact t.slots.sorted_keys.sublist sublist_expired_commit
  · exact t.slots.sorted_keys.sublist (sublist_failed_commit keyed)
  · exact fun a => expired_and_failed_commit keyed
  · rw [hcs, length_gone_commit keyed, hrefused, hpanicked]
    rfl
  · exact fun err herr => panics_commit keyed once herr

/-- A comparison panics over a committed number, another number is found unchanged, a height is
applied, the peer panics on a width, refuses to reset a color and resets a margin. Two of the three
failures drop their slots, and four calls are made. -/
theorem commit_accounts_six_slots :
    let before :=
      (((∅ : Table (Standard.Kind ⊕ Probe)).stage (.inr .panicky) (some (0 : Nat))).stage
        (.inr .hover) (some (2 : Int))).commit ⟨1⟩ ({} : Recorder)
    let t := (((((before.2.1.stage (.inr .panicky) (some (1 : Nat))).stage (.inr .hover)
      (some (2 : Int))).stage (.inl (.keyed .height)) (some (Length.vp 1))).stage
      (.inl (.keyed .width)) (some (Length.vp 1))).stage (.inr .tint) none).stage
      (.inl (.keyed .margin)) none
    let r : Recorder := { failing := [.backgroundColor], panicking := [.width] }
    t.waiting = 6 ∧ (t.commit ⟨1⟩ r).1.errors.length = 3 ∧
      (t.commit ⟨1⟩ r).1.gone = [.margin] ∧
      ∃ cs, (t.commit ⟨1⟩ r).2.2.calls = r.calls ++ cs ∧ cs.length = 4 ∧
        (t.commit ⟨1⟩ r).1.Accounts t (t.commit ⟨1⟩ r).2.1 r.panicking cs := by
  intro before t r
  have ht : t.Reachable := .stage (.stage (.stage (.stage (.stage (.stage (.commit
    (.stage (.stage .empty _ _) _ _) _ _) _ _) _ _) _ _) _ _) _ _) _ _
  have once : ∀ a e, t.slots.get? a = some e → e.CallsOnce ⟨1⟩ := by
    intro a e he
    apply Probe.entry_callsOnce
    -- the one probe that does otherwise would be kept under the font
    intro hkind
    have hfont : Attribute.font = a := by
      rw [← ht.keyed a e he, Entry.target, Entry.policy, hkind]
      rfl
    subst hfont
    cases he
  rcases commit_accounts ht.keyed once r with ⟨cs, hcalls, haccounts⟩
  refine ⟨by decide +kernel, by decide +kernel, by decide +kernel, cs, hcalls, ?_, haccounts⟩
  rw [haccounts.calls]
  decide +kernel

end Table

end Reconciler
