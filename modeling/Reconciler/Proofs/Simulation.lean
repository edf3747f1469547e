import Reconciler.Component

/-!
# Peers that cannot be told apart

Two peers may be in states of different types and still answer all calls of some kind alike. Scripts
that make no other calls, and whole passes, then end the same way against either of them.
-/

namespace Reconciler

variable {π ρ : Type} [Peer π] [Peer ρ]

/-- Related states of two peers answer the calls in `P` alike, and stay related. -/
structure Peer.Simulation (P : Call → Prop) (R : π → ρ → Prop) : Prop where
  answer {p : π} {q : ρ} (h : R p q) {c : Call} (hc : P c) : (Peer.send c p).1 = (Peer.send c q).1
  follow {p : π} {q : ρ} (h : R p q) {c : Call} (hc : P c) : R (Peer.send c p).2 (Peer.send c q).2

/-- Whether all calls that a slot can make about a node are in `P`. -/
def Entry.Calls {κ : Type} [Catalog κ] (P : Call → Prop) (node : NodeHandle) (e : Entry κ) : Prop :=
  (∀ v, (e.policy.apply node v).Calls P) ∧ (e.policy.reset node).Calls P

/-- Every script makes calls of some kind or other. -/
theorem Script.calls_true (s : Script) : s.Calls fun _ => True := by
  induction s with
  | done _ => trivial
  | panic _ => trivial
  | call _ _ ih => exact ⟨trivial, ih⟩

namespace Peer.Simulation

variable {P : Call → Prop} {R : π → ρ → Prop}

theorem run (sim : Simulation P R) {s : Script} (hs : s.Calls P) {p : π} {q : ρ} (h : R p q) :
    (s.run p).1 = (s.run q).1 ∧ R (s.run p).2 (s.run q).2 := by
  induction s generalizing p q with
  | done result =>
    cases result <;> exact ⟨rfl, h⟩
  | panic _ => exact ⟨rfl, h⟩
  | call c next ih =>
    have hanswer := sim.answer h hs.1
    have hfollow := sim.follow h hs.1
    rcases hp : Peer.send c p with ⟨o, p'⟩
    rcases hq : Peer.send c q with ⟨o', q'⟩
    rw [hp, hq] at hanswer hfollow
    -- both scripts go on after the same answer, or panic with it
    obtain rfl : o = o' := hanswer
    cases o with
    | ok _ => simpa only [Script.run, hp, hq] using ih _ (hs.2 _) hfollow
    | error _ => simpa only [Script.run, hp, hq] using ih _ (hs.2 _) hfollow
    | panicked _ =>
      simp only [Script.run, hp, hq]
      exact ⟨trivial, hfollow⟩

variable {κ : Type} [Catalog κ] {node : NodeHandle}

theorem commit_entry (sim : Simulation P R) {e : Entry κ} (he : e.Calls P node) {p : π} {q : ρ}
    (h : R p q) : (e.commit node p).1 = (e.commit node q).1 ∧
      R (e.commit node p).2 (e.commit node q).2 := by
  rcases e with ⟨k, ⟨staged, c⟩⟩
  rcases staged with _ | v | _
  · exact ⟨rfl, h⟩
  · rcases judged : (Catalog.policy k).verdict v c with _ | _ | panic
    · simp only [Entry.commit, Slot.commit, Entry.policy, judged]
      exact ⟨trivial, h⟩
    · rcases sim.run (he.1 v) h with ⟨hanswer, hfollow⟩
      rcases hp : ((Catalog.policy k).apply node v).run p with ⟨o, p'⟩
      rcases hq : ((Catalog.policy k).apply node v).run q with ⟨o', q'⟩
      simp only [Entry.policy, hp, hq] at hanswer hfollow
      subst hanswer
      cases o <;> simp only [Entry.commit, Slot.commit, Entry.policy, judged, hp, hq] <;>
        exact ⟨trivial, hfollow⟩
    · simp only [Entry.commit, Slot.commit, Entry.policy, judged]
      exact ⟨trivial, h⟩
  · rcases sim.run he.2 h with ⟨hanswer, hfollow⟩
    rcases hp : ((Catalog.policy k).reset node).run p with ⟨o, p'⟩
    rcases hq : ((Catalog.policy k).reset node).run q with ⟨o', q'⟩
    simp only [Entry.policy, hp, hq] at hanswer hfollow
    subst hanswer
    cases o <;> simp only [Entry.commit, Slot.commit, Entry.policy, hp, hq] <;>
      exact ⟨trivial, hfollow⟩

theorem settle (sim : Simulation P R) {entries : List (Attribute × Entry κ)}
    (he : ∀ x ∈ entries, x.2.Calls P node) {p : π} {q : ρ} (h : R p q) :
    (Table.settle node entries p).1 = (Table.settle node entries q).1 ∧
      R (Table.settle node entries p).2 (Table.settle node entries q).2 := by
  induction entries generalizing p q with
  | nil => exact ⟨rfl, h⟩
  | cons x entries ih =>
    rcases sim.commit_entry (he x (.head _)) h with ⟨hanswer, hfollow⟩
    rcases ih (fun y hy => he y (.tail _ hy)) hfollow with ⟨hrest, hend⟩
    simp only [Table.settle]
    rw [hanswer, hrest]
    exact ⟨rfl, hend⟩

/-- A pass over slots that only make calls in `P` ends the same way against both peers. -/
theorem commit (sim : Simulation P R) {t : Table κ} (ht : ∀ x ∈ t.slots.entries, x.2.Calls P node)
    {p : π} {q : ρ} (h : R p q) :
    (t.commit node p).1 = (t.commit node q).1 ∧
      (t.commit node p).2.1 = (t.commit node q).2.1 ∧
      R (t.commit node p).2.2 (t.commit node q).2.2 := by
  rcases sim.settle ht h with ⟨hsettled, hend⟩
  simp only [Table.commit]
  rw [hsettled]
  exact ⟨rfl, rfl, hend⟩

end Peer.Simulation

end Reconciler
