import Reconciler.Peer.Recorder
import Reconciler.Probe
import Reconciler.Proofs.Turn

/-!
# What a pass leaves of a slot

A pass meets the request of a slot as a whole or leaves the committed value alone, wherever it is
interrupted. `Policy.Succeeds` and `Policy.Fails` say how a staged value can fare, by the comparison
and by the answer of the peer; there is nothing else (`Policy.succeeds_or_fails`). One lemma for
each kind of request tells what its commit leaves of the slot, and `Table.commit_atomic` puts them
together for a pass, with the peer as it is when the turn comes to the slot.
-/

namespace Reconciler

variable {κ π : Type} [Catalog κ] [Peer π]

namespace Policy

variable {V : Type}

/-- A staged value is judged unchanged, or it is judged changed and the peer takes it. -/
inductive Succeeds (p : Policy V) (node : NodeHandle) (peer : π) (v : V) (c : Option V) : Prop where
  | skipped (judged : p.verdict v c = .unchanged)
  | applied (judged : p.verdict v c = .changed) (h : ((p.apply node v).run peer).1 = .ok ())

/-- The comparison of a staged value panics, or the value is judged changed and the peer fails to
take it or panics. -/
inductive Fails (p : Policy V) (node : NodeHandle) (peer : π) (v : V) (c : Option V) : Prop where
  | comparison {panic : Panic} (judged : p.verdict v c = .panicked panic)
  | error {err : PeerError} (judged : p.verdict v c = .changed)
      (h : ((p.apply node v).run peer).1 = .error err)
  | panic {panic : Panic} (judged : p.verdict v c = .changed)
      (h : ((p.apply node v).run peer).1 = .panicked panic)

theorem succeeds_or_fails (p : Policy V) (node : NodeHandle) (peer : π) (v : V) (c : Option V) :
    p.Succeeds node peer v c ∨ p.Fails node peer v c := by
  cases judged : p.verdict v c with
  | unchanged => exact .inl (.skipped judged)
  | panicked panic => exact .inr (.comparison judged)
  | changed =>
    cases h : ((p.apply node v).run peer).1 with
    | ok => exact .inl (.applied judged h)
    | error err => exact .inr (.error judged h)
    | panicked panic => exact .inr (.panic judged h)

end Policy

namespace Entry

variable {node : NodeHandle} {k : κ} {v : Catalog.Value k} {c : Option (Catalog.Value k)} {p : π}

/-- A slot in which nothing waits is left as it is. -/
theorem remains_commit_idle :
    ((Entry.mk k ⟨none, c⟩).commit node p).1.remains = some ⟨k, ⟨none, c⟩⟩ := rfl

/-- A slot whose default is asked for is gone, however the reset ends. -/
theorem remains_commit_unset :
    ((Entry.mk k ⟨some .unset, c⟩).commit node p).1.remains = none := by
  rcases h : ((Catalog.policy k).reset node).run p with ⟨_ | err | panic, q⟩
  · simp only [commit, Slot.commit, policy, h]
    rfl
  · simp only [commit, Slot.commit, policy, h]
    rfl
  · simp only [commit, Slot.commit, policy, h]
    rfl

/-- A failure leaves the committed value, and no slot where there is none. -/
theorem remains_error (err : CommitError) :
    (Settlement.mk (.error err) ⟨k, ⟨none, c⟩⟩).remains = c.map fun w => ⟨k, ⟨none, some w⟩⟩ := by
  cases c <;> rfl

/-- Of a value that is judged changed, the peer's answer alone decides. -/
theorem remains_commit_of_changed (judged : (Catalog.policy k).verdict v c = .changed) :
    ((Entry.mk k ⟨some (.value v), c⟩).commit node p).1.remains =
      match (((Catalog.policy k).apply node v).run p).1 with
      | .ok () => some ⟨k, ⟨none, some v⟩⟩
      | .error _ => c.map fun w => ⟨k, ⟨none, some w⟩⟩
      | .panicked _ => c.map fun w => ⟨k, ⟨none, some w⟩⟩ := by
  rcases h : ((Catalog.policy k).apply node v).run p with ⟨_ | err | panic, q⟩
  · simp only [commit, Slot.commit, policy, judged, h]
    rfl
  · simp only [commit, Slot.commit, policy, judged, h]
    exact remains_error _
  · simp only [commit, Slot.commit, policy, judged, h]
    exact remains_error _

/-- A staged value that succeeds is committed. -/
theorem remains_commit_of_succeeds (h : (Catalog.policy k).Succeeds node p v c) :
    ((Entry.mk k ⟨some (.value v), c⟩).commit node p).1.remains = some ⟨k, ⟨none, some v⟩⟩ := by
  cases h with
  | skipped judged =>
    simp only [commit, Slot.commit, policy, judged]
    rfl
  | applied judged h => rw [remains_commit_of_changed judged, h]

/-- A staged value that fails is dropped, and what was committed before stays so. -/
theorem remains_commit_of_fails (h : (Catalog.policy k).Fails node p v c) :
    ((Entry.mk k ⟨some (.value v), c⟩).commit node p).1.remains =
      c.map fun w => ⟨k, ⟨none, some w⟩⟩ := by
  cases h with
  | comparison judged =>
    simp only [commit, Slot.commit, policy, judged]
    exact remains_error _
  | error judged h => rw [remains_commit_of_changed judged, h]
  | panic judged h => rw [remains_commit_of_changed judged, h]

end Entry

namespace Table

/-- A pass is atomic for every slot. Where nothing waits the slot stays as it is, and no slot is
made where there was none. A staged value that is applied or skipped is committed. One whose
comparison panics, or that the peer fails to take or panics on, is dropped: what was committed
before stays so, and the slot goes if there was nothing. A slot whose default is asked for goes in
any case. -/
theorem commit_atomic (t : Table κ) (node : NodeHandle) (p : π) (a : Attribute) :
    (t.slots.get? a = none → (t.commit node p).2.1.slots.get? a = none) ∧
    (∀ k c, t.slots.get? a = some ⟨k, ⟨none, c⟩⟩ →
      (t.commit node p).2.1.slots.get? a = some ⟨k, ⟨none, c⟩⟩) ∧
    (∀ k v c, t.slots.get? a = some ⟨k, ⟨some (.value v), c⟩⟩ →
      ((Catalog.policy k).Succeeds node (t.peerAt node p a) v c ∨
        (Catalog.policy k).Fails node (t.peerAt node p a) v c) ∧
      ((Catalog.policy k).Succeeds node (t.peerAt node p a) v c →
        (t.commit node p).2.1.slots.get? a = some ⟨k, ⟨none, some v⟩⟩) ∧
      ((Catalog.policy k).Fails node (t.peerAt node p a) v c →
        (t.commit node p).2.1.slots.get? a = c.map fun w => ⟨k, ⟨none, some w⟩⟩)) ∧
    (∀ k c, t.slots.get? a = some ⟨k, ⟨some .unset, c⟩⟩ →
      (t.commit node p).2.1.slots.get? a = none) := by
  refine ⟨?_, ?_, ?_, ?_⟩
  · intro h
    exact get?_commit_of_none h node p
  · intro k c h
    rw [get?_commit_of_get? h, Entry.remains_commit_idle]
  · intro k v c h
    rw [get?_commit_of_get? h]
    exact ⟨Policy.succeeds_or_fails _ _ _ _ _, Entry.remains_commit_of_succeeds,
      Entry.remains_commit_of_fails⟩
  · intro k c h
    rw [get?_commit_of_get? h, Entry.remains_commit_unset]

/-- A comparison panics over a committed number, a color is refused where nothing is committed, the
peer panics on a reset, and a list is applied. The number stays, the color and the slot that was to
be reset are gone, and the list is committed. -/
theorem commit_atomic_four_slots :
    let before := ((∅ : Table Probe).stage .panicky (some (0 : Nat))).commit ⟨1⟩ ({} : Recorder)
    let t := (((before.2.1.stage .panicky (some (1 : Nat))).stage .tint (some (Color.argb 3))).stage
      .hover none).stage .always (some [7])
    let p : Recorder := { failing := [.backgroundColor], panicking := [.hoverEffect] }
    (t.commit ⟨1⟩ p).2.1.slots.get? .opacity = some ⟨.panicky, ⟨none, some (0 : Nat)⟩⟩ ∧
      (t.commit ⟨1⟩ p).2.1.slots.get? .backgroundColor = none ∧
      (t.commit ⟨1⟩ p).2.1.slots.get? .hoverEffect = none ∧
      (t.commit ⟨1⟩ p).2.1.slots.get? .layoutWeight = some ⟨.always, ⟨none, some [7]⟩⟩ := by
  intro before t p
  have hpanicky := (commit_atomic t ⟨1⟩ p .opacity).2.2.1 .panicky (1 : Nat) (some (0 : Nat)) rfl
  have htint := (commit_atomic t ⟨1⟩ p .backgroundColor).2.2.1 .tint (Color.argb 3) none rfl
  have hhover := (commit_atomic t ⟨1⟩ p .hoverEffect).2.2.2 .hover none rfl
  have halways := (commit_atomic t ⟨1⟩ p .layoutWeight).2.2.1 .always [7] none rfl
  -- how the peer answers when the turn comes to the color and to the list
  have hrefused : (((Catalog.policy Probe.tint).apply ⟨1⟩ (Color.argb 3)).run
      (t.peerAt ⟨1⟩ p .backgroundColor)).1 =
      .error (.rejected .backgroundColor "injected failure") := by decide +kernel
  have htaken : (((Catalog.policy Probe.always).apply ⟨1⟩ [7]).run
      (t.peerAt ⟨1⟩ p .layoutWeight)).1 = .ok () := by decide +kernel
  exact ⟨hpanicky.2.2 (.comparison rfl), htint.2.2 (.error rfl hrefused), hhover,
    halways.2.1 (.applied rfl htaken)⟩

end Table

end Reconciler
