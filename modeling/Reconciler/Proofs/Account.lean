import Reconciler.Proofs.Burst
import Reconciler.Proofs.Comparison
import Reconciler.Proofs.Pass
import Reconciler.Proofs.Run

/-!
# What the peer acknowledged

The committed value of a slot is what the component believes the peer to have. Here this belief is
held against a record of what the peer acknowledged: for each attribute the arguments of the last
write that succeeded, struck out by every attempt to reset the attribute, also one that fails.

* `Account` is any reading of a peer's state that keeps this record. A peer may carry it
  itself, or it is kept beside one that does not (`Audited`).
* `Backed` relates a slot to the record for its attribute: there is a committed value exactly if
  there is a record, and the record then is of a value that cannot be told from the committed one.
* Every edit and every commit keeps each slot backed, whatever the peer answers
  (`Component.Run.backed`).
-/

namespace Reconciler

/-- The record after a call that ended in some way: a write that succeeded is noted, and any attempt
to reset an attribute strikes out what is noted of it. -/
def Call.record (c : Call) (o : Outcome PeerError Unit) (m : AttributeMap (List WireValue)) :
    AttributeMap (List WireValue) :=
  match c, o with
  | .apply _ a xs, .ok () => m.insert a xs
  | .apply _ _ _, _ => m
  | .reset _ a, _ => m.erase a

/-- A call is no news of other attributes. -/
theorem Call.get?_record_of_ne {c : Call} {a : Attribute} (h : c.target ≠ a)
    (o : Outcome PeerError Unit) (m : AttributeMap (List WireValue)) :
    (c.record o m).get? a = m.get? a := by
  cases c with
  | apply n b xs =>
    have hb : b ≠ a := h
    cases o <;> simp [record, AttributeMap.get?_insert, hb]
  | reset n b =>
    have hb : b ≠ a := h
    simp [record, AttributeMap.get?_erase, hb]

/-- A reading of a peer that keeps the record of the calls about one node. -/
structure Account (π : Type) [Peer π] (node : NodeHandle) where
  read : π → AttributeMap (List WireValue)
  read_send (c : Call) (p : π) (h : c.node = node) :
    read (Peer.send c p).2 = c.record (Peer.send c p).1 (read p)

namespace Account

variable {π : Type} [Peer π] {node : NodeHandle} {a : Attribute} {p q : π}
  {o : Outcome PeerError Unit} {xs : List WireValue}

theorem read_reset (acc : Account π node) (h : Peer.send (.reset node a) p = (o, q)) :
    (acc.read q).get? a = none := by
  have hq := acc.read_send (.reset node a) p rfl
  rw [h] at hq
  simp [hq, Call.record, AttributeMap.get?_erase]

theorem read_applied (acc : Account π node) (h : Peer.send (.apply node a xs) p = (.ok (), q)) :
    (acc.read q).get? a = some xs := by
  have hq := acc.read_send (.apply node a xs) p rfl
  rw [h] at hq
  simp [hq, Call.record, AttributeMap.get?_insert]

theorem read_failed (acc : Account π node) (h : Peer.send (.apply node a xs) p = (o, q))
    (ho : o ≠ .ok ()) : acc.read q = acc.read p := by
  have hq := acc.read_send (.apply node a xs) p rfl
  rw [h] at hq
  cases o with
  | ok => exact absurd rfl ho
  | error e => exact hq
  | panicked e => exact hq

/-- The commit of a slot is no news of other attributes. -/
theorem read_settles {κ : Type} [Catalog κ] [DirectCatalog κ] {e : Entry κ} {s : Settlement κ}
    (acc : Account π node) (hs : e.Settles node p s q) (h : e.target ≠ a) :
    (acc.read q).get? a = (acc.read p).get? a := by
  rcases hs.call with rfl | ⟨c, hnode, htarget, rfl⟩
  · rfl
  · rw [acc.read_send c p hnode]
    exact Call.get?_record_of_ne (htarget ▸ h) _ _

section Direct

variable {κ : Type} [Catalog κ] [DirectCatalog κ] {k : κ} {v : Catalog.Value k}

/-- An attempt to reset the attribute of a slot strikes out its record, however it ends. -/
theorem read_run_reset (acc : Account π node)
    (h : ((Catalog.policy k).reset node).run p = (o, q)) :
    (acc.read q).get? (Catalog.policy k).target = none := by
  rw [run_reset] at h
  exact acc.read_reset h

/-- A value that was brought to the peer is on record. -/
theorem read_run_apply (acc : Account π node)
    (h : ((Catalog.policy k).apply node v).run p = (.ok (), q)) :
    (acc.read q).get? (Catalog.policy k).target = some (DirectCatalog.args k v) := by
  rw [run_apply] at h
  exact acc.read_applied h

end Direct

end Account

/-- Two values cannot be told from one another by the comparison of their attribute, or are one. -/
def Standard.Indistinct (a : Attribute) (v w : Standard.Value a) : Prop :=
  v = w ∨ Standard.unchanged a v w = true

namespace Standard.Indistinct

variable {a : Attribute} {u v w : Standard.Value a}

/-- A value judged unchanged against a second one is unchanged against all that cannot be told from
the second. -/
theorem unchanged_trans (huv : Standard.unchanged a u v = true) (hvw : Indistinct a v w) :
    Standard.unchanged a u w = true := by
  rcases hvw with rfl | hvw
  · exact huv
  · exact (Standard.coherent_unchanged a).trans huv hvw

end Standard.Indistinct

/-- A slot and the record for its attribute agree. -/
inductive Backed (a : Attribute) :
    Option (Entry Standard.Kind) → Option (List WireValue) → Prop where
  -- There is no slot, and no record.
  | absent : Backed a none none
  -- Nothing is committed, and there is no record.
  | fresh {staged : Option (Staged (Standard.Value a))} :
      Backed a (some ⟨Standard.setKind a, ⟨staged, none⟩⟩) none
  -- A value is committed, and the record is of one that cannot be told from it.
  | kept {staged : Option (Staged (Standard.Value a))} {v w : Standard.Value a}
      (h : Standard.Indistinct a v w) :
      Backed a (some ⟨Standard.setKind a, ⟨staged, some v⟩⟩) (some (Standard.args a w))

namespace Backed

variable {a : Attribute} {e : Entry Standard.Kind} {o : Option (Entry Standard.Kind)}
  {r : Option (List WireValue)}

theorem kind_eq (h : Backed a (some e) r) : e.kind = Standard.setKind a := by
  cases h <;> rfl

/-- A request changes nothing of what is committed. -/
theorem restage (h : Backed a o r) (v : Option (Standard.Value a)) :
    Backed a (some (Table.restage (Standard.setKind a) v o)) r := by
  cases h with
  | absent => exact .fresh
  | fresh =>
    simp only [Table.restage, Entry.stage_self]
    exact .fresh
  | kept h =>
    simp only [Table.restage, Entry.stage_self]
    exact .kept h

theorem slot_iff {staged : Option (Staged (Standard.Value a))} {c : Option (Standard.Value a)} :
    Backed a (some ⟨Standard.setKind a, ⟨staged, c⟩⟩) r ↔
      (c = none ∧ r = none) ∨
        ∃ v w, c = some v ∧ r = some (Standard.args a w) ∧ Standard.Indistinct a v w := by
  constructor
  · intro h
    cases h with
    | fresh => exact .inl ⟨rfl, rfl⟩
    | kept h => exact .inr ⟨_, _, rfl, rfl, h⟩
  · rintro (⟨rfl, rfl⟩ | ⟨v, w, rfl, rfl, h⟩)
    · exact .fresh
    · exact .kept h

/-- A committed value has a record. -/
theorem record {staged : Option (Staged (Standard.Value a))} {v : Standard.Value a}
    (h : Backed a (some ⟨Standard.setKind a, ⟨staged, some v⟩⟩) r) :
    ∃ w, r = some (Standard.args a w) ∧ Standard.Indistinct a v w := by
  cases h with
  | kept h => exact ⟨_, rfl, h⟩

/-- A record stands behind a committed value. -/
theorem committed {xs : List WireValue} (h : Backed a o (some xs)) :
    ∃ staged v, o = some ⟨Standard.setKind a, ⟨staged, some v⟩⟩ := by
  cases h with
  | kept => exact ⟨_, _, rfl⟩

/-- A slot that failed keeps what is committed, or is dropped when nothing is. -/
theorem failed {staged : Option (Staged (Standard.Value a))} {c : Option (Standard.Value a)}
    (h : Backed a (some ⟨Standard.setKind a, ⟨staged, c⟩⟩) r) (err : CommitError) :
    Backed a (Settlement.remains ⟨.error err, ⟨Standard.setKind a, ⟨none, c⟩⟩⟩) r := by
  rcases slot_iff.1 h with ⟨rfl, rfl⟩ | ⟨v, w, rfl, rfl, hvw⟩
  · exact .absent
  · exact .kept hvw

variable {π : Type} [Peer π] {node : NodeHandle} {p q : π} {s : Settlement Standard.Kind}

/-- However the commit of a slot ends, what is left of it agrees with the record. -/
theorem settles (acc : Account π node) (h : Backed a (some e) ((acc.read p).get? a))
    (hs : e.Settles node p s q) : Backed a s.remains ((acc.read q).get? a) := by
  rcases e with ⟨k, slot⟩
  obtain rfl : k = Standard.setKind a := h.kind_eq
  have hreset : ∀ {o : Outcome PeerError Unit} {q : π},
      ((Standard.policy a).reset node).run p = (o, q) → (acc.read q).get? a = none := by
    intro o q hrun
    have hnone := acc.read_run_reset hrun
    rwa [Standard.target_setKind] at hnone
  -- a write that fails leaves the record alone
  have hfailed : ∀ {v : Standard.Value a} {o : Outcome PeerError Unit} {q : π},
      ((Standard.policy a).apply node v).run p = (o, q) → o ≠ .ok () → acc.read q = acc.read p := by
    intro v o q hrun ho
    rw [run_apply] at hrun
    exact acc.read_failed hrun ho
  cases hs with
  | idle => exact h
  | expired hrun =>
    rw [hreset hrun]
    exact .absent
  | resetFailed hrun =>
    rw [hreset hrun]
    exact .absent
  | resetPanicked hrun =>
    rw [hreset hrun]
    exact .absent
  | @unchanged _ _ c _ judged =>
    -- no call is made: the record stays, and by transitivity it stays close to the new value
    rcases slot_iff.1 h with ⟨rfl, -⟩ | ⟨u, w, rfl, hr, huw⟩
    · cases judged
    · rw [hr]
      have hjudged := Standard.verdict_eq_unchanged_iff.1 judged
      exact .kept (.inr (Standard.Indistinct.unchanged_trans hjudged huw))
  | comparisonPanicked => exact h.failed _
  | @applied _ v _ _ _ _ hrun =>
    have hsome := acc.read_run_apply hrun
    rw [Standard.target_setKind] at hsome
    rw [hsome]
    exact .kept (.inl rfl)
  | applyFailed _ hrun =>
    rw [hfailed hrun (by simp)]
    exact h.failed _
  | applyPanicked _ hrun =>
    rw [hfailed hrun (by simp)]
    exact h.failed _

end Backed

namespace Component.Run

variable {π : Type} [Peer π] {outside : π → π → Prop} {node : NodeHandle} {origin : π}

/-- In every run on a peer that has no record of the node at first, and whose record others leave
alone, every slot agrees with the record. -/
theorem backed (acc : Account π node) (empty : acc.read origin = ∅)
    (frame : ∀ p q, outside p q → acc.read q = acc.read p) {es : List Edit} {c : Component} {p : π}
    (run : Run outside node origin es c p) (a : Attribute) :
    Backed a (c.slots.slots.get? a) ((acc.read p).get? a) := by
  induction run generalizing a with
  | start =>
    rw [empty, Table.get?_empty, AttributeMap.get?_emptyCollection]
    exact .absent
  | edit e run ih =>
    rw [get?_edit]
    cases e.request? a with
    | none => exact ih a
    | some v => exact (ih a).restage v
  | @commit es c p run ih =>
    obtain rfl := run.node_eq
    -- a slot of another attribute is settled with calls about that attribute alone
    have keep : ∀ {a b : Attribute} {o : Option (Entry Standard.Kind)} {e : Entry Standard.Kind}
        {p q : π} {s : Settlement Standard.Kind}, a ≠ b → Backed a o ((acc.read p).get? a) →
        Backed b (some e) ((acc.read p).get? b) → e.Settles c.node p s q →
        Backed a o ((acc.read q).get? a) := by
      intro a b o e p q s hab ha hb hs
      have htarget : e.target = b := Standard.target_of_kind_eq hb.kind_eq
      rw [acc.read_settles hs (htarget ▸ hab.symm)]
      exact ha
    exact Table.commit_rule (P := fun a o p => Backed a o ((acc.read p).get? a))
      (Q := fun a o p => Backed a o ((acc.read p).get? a)) id (fun h hs => h.settles acc hs)
      keep keep ih a
  | outside run h ih =>
    rw [frame _ _ h]
    exact ih a

end Component.Run

end Reconciler
