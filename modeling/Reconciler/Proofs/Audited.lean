import Reconciler.Peer.Recorder
import Reconciler.Proofs.Account
import Reconciler.Proofs.Simulation

/-!
# Books kept beside a peer

An *audited* peer answers as the peer in it does, and keeps books of what was acknowledged. The
books are a ghost: `Component.commit_audited` shows that a pass cannot tell them from their absence,
and `Component.Run.audit` that every run is that of an audited peer.

What the components rely on when a call fails or panics is then a statement about the books, and
holds whatever the peer answers to each call (`Component.Run.backed_acknowledged`).
-/

namespace Reconciler

/-- A peer with books of the calls that it acknowledged. -/
structure Audited (π : Type) where
  peer : π
  -- For each attribute the arguments of the last write that succeeded, if no reset was tried since.
  acknowledged : AttributeMap (List WireValue) := ∅

namespace Audited

variable {π : Type} [Peer π]

instance : Peer (Audited π) where
  send c l :=
    ((Peer.send c l.peer).1,
      ⟨(Peer.send c l.peer).2, c.record (Peer.send c l.peer).1 l.acknowledged⟩)

/-- The books are an account, for whatever node. -/
def account (node : NodeHandle) : Account (Audited π) node where
  read := acknowledged
  read_send _ _ _ := rfl

/-- The peer may change in any way, and the books do not. -/
def SameBooks (l m : Audited π) : Prop := m.acknowledged = l.acknowledged

/-- An audited peer answers every call as the peer in it. -/
theorem simulates :
    Peer.Simulation (fun _ => True) fun (l : Audited π) (p : π) => l.peer = p := by
  constructor
  · rintro l p rfl c -
    rfl
  · rintro l p rfl c -
    rfl

end Audited

namespace Component

variable {π : Type} [Peer π]

/-- Books do not show in a pass. -/
theorem commit_audited (c : Component) (l : Audited π) :
    (c.commit l).1 = (c.commit l.peer).1 ∧ (c.commit l).2.1 = (c.commit l.peer).2.1 ∧
      (c.commit l).2.2.peer = (c.commit l.peer).2.2 := by
  have hcalls : ∀ x ∈ c.slots.slots.entries, x.2.Calls (fun _ => True) c.node := by
    intro x _
    exact ⟨fun v => Script.calls_true _, Script.calls_true _⟩
  rcases Audited.simulates.commit hcalls (rfl : l.peer = l.peer) with ⟨hreport, hslots, hpeer⟩
  refine ⟨hreport, ?_, hpeer⟩
  simp only [commit]
  rw [hslots]

namespace Run

variable {node : NodeHandle} {origin : π} {es : List Edit} {c : Component}

/-- Every run is one of an audited peer with empty books at first. -/
theorem audit {p : π} (run : Run (fun _ _ => True) node origin es c p) :
    ∃ l : Audited π, l.peer = p ∧ Run Audited.SameBooks node { peer := origin } es c l := by
  induction run with
  | start => exact ⟨_, rfl, .start⟩
  | edit e _ ih =>
    rcases ih with ⟨l, rfl, run⟩
    exact ⟨l, rfl, run.edit e⟩
  | @commit es c p _ ih =>
    rcases ih with ⟨l, rfl, run⟩
    rcases c.commit_audited l with ⟨-, hc, hp⟩
    refine ⟨(c.commit l).2.2, hp, ?_⟩
    rw [← hc]
    exact run.commit
  | @outside es c p q _ _ ih =>
    rcases ih with ⟨l, rfl, run⟩
    exact ⟨⟨q, l.acknowledged⟩, rfl, run.outside rfl⟩

variable {l : Audited π}

/-- Every slot agrees with the books. -/
theorem backed_acknowledged (run : Run Audited.SameBooks node { peer := origin } es c l)
    (a : Attribute) : Backed a (c.slots.slots.get? a) (l.acknowledged.get? a) :=
  run.backed (Audited.account node) rfl (fun _ _ h => h) a

/-- Slots are of the kind of their attribute. A slot holds a committed value exactly if the books
know of its attribute, and what they know is the arguments of that value, or of one that is
unchanged against it. So a pass counts a staged value as unchanged (`Report.ofSettled`) only when it
cannot be told from what the peer acknowledged last. -/
theorem committed_iff_acknowledged
    (run : Run Audited.SameBooks node { peer := origin } es c l) (a : Attribute) :
    (∀ e, c.slots.slots.get? a = some e → e.kind = Standard.setKind a) ∧
      ((∃ s v, c.slot? a = some s ∧ s.committed = some v) ↔
        ∃ xs, l.acknowledged.get? a = some xs) ∧
      (∀ s v, c.slot? a = some s → s.committed = some v →
        ∃ w, l.acknowledged.get? a = some (Standard.args a w) ∧ Standard.Indistinct a v w) ∧
      (∀ t, (a, t) ∈ (Table.settle c.node c.slots.slots.entries l).1 → t.isUnchanged = true →
        ∃ s v w, c.slot? a = some s ∧ s.staged = some (.value v) ∧
          l.acknowledged.get? a = some (Standard.args a w) ∧
          Standard.unchanged a v w = true) := by
  have hbacked := run.backed_acknowledged a
  have hrecord : ∀ s v, c.slot? a = some s → s.committed = some v →
      ∃ w, l.acknowledged.get? a = some (Standard.args a w) ∧ Standard.Indistinct a v w := by
    rintro ⟨staged, committed⟩ v hs hv
    rw [slot?_eq_some_iff.1 hs] at hbacked
    cases hv
    exact hbacked.record
  refine ⟨?_, ?_, hrecord, ?_⟩
  · intro e he
    rw [he] at hbacked
    exact hbacked.kind_eq
  · constructor
    · rintro ⟨s, v, hs, hv⟩
      rcases hrecord s v hs hv with ⟨w, hw, -⟩
      exact ⟨_, hw⟩
    · rintro ⟨xs, hxs⟩
      rw [hxs] at hbacked
      rcases hbacked.committed with ⟨staged, v, hget⟩
      exact ⟨_, v, slot?_eq_some_iff.2 hget, rfl⟩
  · intro t ht hunchanged
    rcases Table.settles_of_mem_settle ht with ⟨⟨k, slot⟩, p, q, hmem, hsettles⟩
    have hget : c.slots.slots.get? a = some ⟨k, slot⟩ := AttributeMap.mem_entries.1 hmem
    rw [hget] at hbacked
    obtain rfl : k = Standard.setKind a := hbacked.kind_eq
    rcases hsettles.of_isUnchanged hunchanged with ⟨v, u, rfl, hjudge⟩
    have hs : c.slot? a = some ⟨some (.value v), some u⟩ := slot?_eq_some_iff.2 hget
    rcases hrecord _ u hs rfl with ⟨w, hw, huw⟩
    -- the staged value is unchanged against the committed one, and so against the acknowledged one
    have hvu : Standard.unchanged a v u = true := Standard.verdict_eq_unchanged_iff.1 hjudge
    exact ⟨_, v, w, hs, rfl, hw, Standard.Indistinct.unchanged_trans hvu huw⟩

/-- A width is acknowledged and kept, while a height that makes the peer panic is neither. -/
theorem committed_iff_acknowledged_width_height :
    let l : Audited Recorder := { peer := { panicking := [.height] } }
    let c := (Component.mk ⟨1⟩ ∅).editAll [.set .width (.vp 1), .set .height (.vp 2)]
    let after := c.commit l
    (∃ s v, after.2.1.slot? .width = some s ∧ s.committed = some v) ∧
      ¬ ∃ s v, after.2.1.slot? .height = some s ∧ s.committed = some v := by
  intro l c after
  have run : Run Audited.SameBooks ⟨1⟩ l [.set .width (.vp 1), .set .height (.vp 2)]
      after.2.1 after.2.2 := .commit (.edit _ (.edit _ .start))
  have hwidth : ∃ xs, after.2.2.acknowledged.get? .width = some xs := ⟨_, rfl⟩
  have hheight : ¬ ∃ xs, after.2.2.acknowledged.get? .height = some xs := by
    rintro ⟨xs, h⟩
    cases h
  exact ⟨(committed_iff_acknowledged run .width).2.1.2 hwidth,
    fun h => hheight ((committed_iff_acknowledged run .height).2.1.1 h)⟩

end Run

end Component

end Reconciler
