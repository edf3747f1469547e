import Reconciler.Proofs.Handles
import Reconciler.Proofs.Precedence
import Reconciler.Proofs.Reachable

/-!
# Components without their node

A component outlives its node. Once the node is removed no handle that is given out later is the
node's, so it stays away (`Headless.Retired`), and every call about it fails. `Entry.Lapses` lists
how the commit of a slot ends then: nothing is applied, and a slot is left only if a value was
committed in it. From that follow what a pass does (`Component.Fruitless`) and what it leaves
(`Table.Commits`).

The run of a component and its peer is a list of events, in which others may use the peer between
the operations of the component. `Component.Tracked` holds all along it, and `Component.Orphaned`
from the removal on. Together they give `Component.removed_stays_dead`.
-/

namespace Reconciler

/-! ## The commit of a slot without its node -/

theorem Headless.send_of_dead {c : Call} {p : Headless} (dead : p.isAlive c.node = false) :
    Peer.send c p = (.error (.unknownNode c.node), { p with journal := p.journal ++ [c] }) := by
  simp only [Peer.send, receive_of_dead dead]

namespace Entry

/-- A value is committed in a slot. -/
def Commits {κ : Type} [Catalog κ] (e : Entry κ) : Prop := ∃ w, e.slot.committed = some w

/-- The ways in which the commit of a slot ends when its node is not alive. -/
inductive Lapses (n : NodeHandle) : Entry Standard.Kind → Settlement Standard.Kind → Prop where
  -- Nothing waits.
  | idle {k : Standard.Kind} {c : Option (Catalog.Value k)} :
      Lapses n ⟨k, ⟨none, c⟩⟩ ⟨.ok .idle, ⟨k, ⟨none, c⟩⟩⟩
  -- The default is asked for, and cannot be had.
  | resetFailed {k : Standard.Kind} {c : Option (Catalog.Value k)} :
      Lapses n ⟨k, ⟨some .unset, c⟩⟩
        ⟨.error (.reset (Catalog.policy k).target (.unknownNode n)), ⟨k, {}⟩⟩
  -- The value is judged unchanged, and the peer is not asked.
  | unchanged {k : Standard.Kind} {v w : Catalog.Value k} (judged : k.unchanged v w = true) :
      Lapses n ⟨k, ⟨some (.value v), some w⟩⟩ ⟨.ok .unchanged, ⟨k, ⟨none, some v⟩⟩⟩
  -- The value is judged changed, and cannot be brought to the node.
  | applyFailed {k : Standard.Kind} {v : Catalog.Value k} {c : Option (Catalog.Value k)}
      (judged : ∀ w, c = some w → k.unchanged v w = false) :
      Lapses n ⟨k, ⟨some (.value v), c⟩⟩
        ⟨.error (.apply (Catalog.policy k).target (.unknownNode n)), ⟨k, ⟨none, c⟩⟩⟩

variable {n : NodeHandle} {e : Entry Standard.Kind} {p q : Headless} {s : Settlement Standard.Kind}

/-- On a node that is not alive there are no other ways. -/
theorem Settles.lapses (dead : p.isAlive n = false) (hs : e.Settles n p s q) : e.Lapses n s := by
  have happly : ∀ {k : Standard.Kind} {v : Catalog.Value k} {o : Outcome PeerError Unit}
      {q : Headless}, ((Catalog.policy k).apply n v).run p = (o, q) →
      o = .error (.unknownNode n) := by
    intro k v o q h
    rw [run_apply, Headless.send_of_dead dead] at h
    exact (Prod.mk.inj h).1.symm
  have hreset : ∀ {k : Standard.Kind} {o : Outcome PeerError Unit} {q : Headless},
      ((Catalog.policy k).reset n).run p = (o, q) → o = .error (.unknownNode n) := by
    intro k o q h
    rw [run_reset, Headless.send_of_dead dead] at h
    exact (Prod.mk.inj h).1.symm
  cases hs with
  | idle => exact .idle
  | expired h => cases hreset h
  | resetFailed h =>
    cases hreset h
    exact .resetFailed
  | resetPanicked h => cases hreset h
  | @unchanged k v c _ judged =>
    cases c with
    | none => cases judged
    | some w => exact .unchanged (k.verdict_eq_unchanged_iff.1 judged)
  | comparisonPanicked judged => exact absurd judged (Standard.Kind.verdict_ne_panicked _ _ _ _)
  | applied _ h => cases happly h
  | @applyFailed k v c _ _ _ judged h =>
    cases happly h
    refine .applyFailed ?_
    rintro w rfl
    rw [Bool.eq_false_iff]
    intro hunchanged
    rw [k.verdict_eq_unchanged_iff.2 hunchanged] at judged
    cases judged
  | applyPanicked _ h => cases happly h

/-- A commit on a node that is not alive changes no node. -/
theorem Settles.node?_eq (dead : p.isAlive n = false) (hs : e.Settles n p s q) (m : NodeHandle) :
    q.node? m = p.node? m := by
  rcases hs.call with rfl | ⟨c, rfl, -, rfl⟩
  · rfl
  · rw [Headless.send_of_dead dead]
    rfl

namespace Lapses

theorem isApplied (h : e.Lapses n s) : s.isApplied = false := by
  cases h <;> rfl

/-- A slot is left only if a value was committed in it. -/
theorem commits_of_remains (h : e.Lapses n s) (occupied : e.slot.isVacant = false)
    {f : Entry Standard.Kind} (left : s.remains = some f) : e.Commits := by
  cases h with
  | @idle k c =>
    cases c with
    | none => cases occupied
    | some w => exact ⟨w, rfl⟩
  | resetFailed => cases left
  | unchanged => exact ⟨_, rfl⟩
  | @applyFailed k v c =>
    cases c with
    | none => cases left
    | some w => exact ⟨w, rfl⟩

end Lapses

end Entry

namespace Table

/-- What every commit of a slot keeps of the peer is kept by any number of them. -/
theorem settle_keeps {κ π : Type} [Catalog κ] [Peer π] {node : NodeHandle} {I : π → Prop}
    (keep : ∀ {e : Entry κ} {p s q}, I p → e.Settles node p s q → I q)
    (entries : List (Attribute × Entry κ)) {p : π} (h : I p) : I (settle node entries p).2 := by
  induction entries generalizing p with
  | nil => exact h
  | cons x entries ih => exact ih (keep h (x.2.settles_commit node p))

/-- A value is committed in the slot of an attribute. -/
def Commits {κ : Type} [Catalog κ] (t : Table κ) (a : Attribute) : Prop :=
  ∃ e, t.slots.get? a = some e ∧ e.Commits

/-- If staging leaves a slot with a committed value, it was committed before. -/
theorem commits_of_restage {κ : Type} [Catalog κ] [DecidableEq κ] {k : κ}
    {v : Option (Catalog.Value k)} {o : Option (Entry κ)} (h : (restage k v o).Commits) :
    ∃ e, o = some e ∧ e.Commits := by
  cases o with
  | none =>
    rcases h with ⟨w, hw⟩
    cases hw
  | some e =>
    rcases e with ⟨i, slot⟩
    refine ⟨_, rfl, ?_⟩
    rw [restage] at h
    by_cases hi : i = k
    · subst hi
      rw [Entry.stage_self] at h
      exact h
    · -- a slot of another kind is replaced by one without a committed value
      rw [Entry.stage_of_ne hi] at h
      rcases h with ⟨w, hw⟩
      cases hw

/-- Staging commits nothing. -/
theorem Commits.of_stage {κ : Type} [Catalog κ] [DecidableEq κ] {t : Table κ} {k : κ}
    {v : Option (Catalog.Value k)} {a : Attribute} (h : (t.stage k v).Commits a) : t.Commits a := by
  rcases h with ⟨e, he, hcommits⟩
  rw [get?_stage] at he
  split at he
  · cases he
    exact commits_of_restage hcommits
  · exact ⟨e, he, hcommits⟩

variable {t : Table Standard.Kind} {n : NodeHandle} {p : Headless} {a : Attribute}

/-- All along a pass no node is changed. -/
theorem node?_settle (dead : p.isAlive n = false)
    (entries : List (Attribute × Entry Standard.Kind)) (m : NodeHandle) :
    (settle n entries p).2.node? m = p.node? m := by
  refine settle_keeps (I := fun q : Headless => ∀ m, q.node? m = p.node? m) ?_ entries
    (fun _ => rfl) m
  intro e q s r hq hs m
  have hdead : q.isAlive n = false := by
    rw [Headless.isAlive, hq]
    exact dead
  rw [hs.node?_eq hdead, hq]

/-- When its turn comes, a slot lapses. -/
theorem lapses_of_settlement? (dead : p.isAlive n = false) {s : Settlement Standard.Kind}
    (h : t.settlement? n p a = some s) : ∃ e, t.slots.get? a = some e ∧ e.Lapses n s := by
  rcases settles_of_settlement? h with ⟨e, q, he, hs⟩
  have hdead : (t.peerAt n p a).isAlive n = false := by
    rw [Headless.isAlive, peerAt, node?_settle dead]
    exact dead
  exact ⟨e, he, hs.lapses hdead⟩

/-- A pass leaves the slot of an attribute only if a value was committed in it. -/
theorem Commits.of_commit_of_dead (occupied : t.Occupied) (dead : p.isAlive n = false)
    {f : Entry Standard.Kind} (h : (t.commit n p).2.1.slots.get? a = some f) : t.Commits a := by
  rw [get?_commit] at h
  rcases Option.bind_eq_some_iff.1 h with ⟨s, hs, left⟩
  rcases lapses_of_settlement? dead hs with ⟨e, he, hlapses⟩
  exact ⟨e, he, hlapses.commits_of_remains (occupied a e he) left⟩

end Table

namespace Component

/-! ## A pass without its node -/

/-- A pass that comes to nothing, for the node is not alive. -/
structure Fruitless (n : NodeHandle) (c : Component) (p : Headless)
    (pass : Report × Component × Headless) : Prop where
  /-- No slot brings its value to the peer. -/
  applied : pass.1.applied = 0
  /-- What is rendered stays as it is, also on other nodes. -/
  attribute?_eq (m : NodeHandle) (a : Attribute) : pass.2.2.attribute? m a = p.attribute? m a
  /-- A value is staged over nothing, or is judged changed: the failure to apply it is reported. -/
  applyFailed {a : Attribute} {slot : Slot (Standard.Value a)} {v : Standard.Value a}
      (h : c.slot? a = some slot) (value : slot.staged = some (.value v))
      (changed : slot.committed = none ∨
        ∃ w, slot.committed = some w ∧ Standard.unchanged a v w = false) :
    pass.1.errors.filter (·.target = a) = [.apply a (.unknownNode n)]
  /-- The default is asked for: the failure to reset the attribute is reported, and the slot is
  gone. -/
  resetFailed {a : Attribute} {slot : Slot (Standard.Value a)} (h : c.slot? a = some slot)
      (unset : slot.staged = some .unset) :
    pass.1.errors.filter (·.target = a) = [.reset a (.unknownNode n)] ∧
      pass.2.1.slots.slots.get? a = none

variable {c : Component} {p : Headless}

/-- A slot is settled when its turn comes, and without the node it lapses. -/
theorem exists_lapses (dead : p.isAlive c.node = false) {a : Attribute}
    {slot : Slot (Standard.Value a)} (h : c.slot? a = some slot) :
    ∃ s, c.slots.settlement? c.node p a = some s ∧
      (Entry.mk (Standard.setKind a) slot).Lapses c.node s := by
  have hget := slot?_eq_some_iff.1 h
  have hs : c.slots.settlement? c.node p a =
      some ((Entry.mk (Standard.setKind a) slot).commit c.node (c.slots.peerAt c.node p a)).1 := by
    rw [Table.settlement?, hget]
    rfl
  rcases Table.lapses_of_settlement? dead hs with ⟨e, he, hlapses⟩
  rw [hget] at he
  cases he
  exact ⟨_, hs, hlapses⟩

theorem fruitless_commit (keyed : c.slots.Keyed) (dead : p.isAlive c.node = false) :
    Fruitless c.node c p (c.commit p) := by
  have herrors : ∀ a, (c.commit p).1.errors.filter (·.target = a) =
      ((c.slots.settlement? c.node p a).bind Settlement.error?).toList :=
    fun a => Table.errors_commit keyed
  constructor
  case applied =>
    have hnone : ∀ x ∈ (Table.settle c.node c.slots.slots.entries p).1,
        ¬ x.2.isApplied = true := by
      rintro ⟨a, s⟩ hx
      rcases Table.lapses_of_settlement? dead (Table.mem_settle_iff.1 hx) with ⟨e, -, hlapses⟩
      rw [hlapses.isApplied]
      exact Bool.false_ne_true
    exact List.countP_eq_zero.2 hnone
  case attribute?_eq =>
    intro m a
    exact congrArg (Option.bind · (·.attributes.get? a)) (Table.node?_settle dead _ m)
  case applyFailed =>
    intro a slot v h value changed
    rcases exists_lapses dead h with ⟨s, hs, hlapses⟩
    rw [herrors, hs]
    cases hlapses with
    | idle => cases value
    | resetFailed => cases value
    | unchanged judged =>
      cases value
      rcases changed with hnone | ⟨w, hw, hjudged⟩
      · cases hnone
      · cases hw
        cases judged.symm.trans hjudged
    | applyFailed =>
      rw [Standard.target_setKind]
      rfl
  case resetFailed =>
    intro a slot h unset
    rcases exists_lapses dead h with ⟨s, hs, hlapses⟩
    have hleft : (c.commit p).2.1.slots.slots.get? a = s.remains := by
      have hget := c.slots.get?_commit c.node p a
      rw [hs] at hget
      exact hget
    rw [herrors, hs, hleft]
    cases hlapses with
    | idle => cases unset
    | resetFailed =>
      rw [Standard.target_setKind]
      exact ⟨rfl, rfl⟩
    | unchanged => cases unset
    | applyFailed => cases unset

/-! ## Runs -/

/-- What happens to a component and its peer. -/
inductive Event where
  /-- An operation of the component. -/
  | own (op : Op)
  /-- An operation of others on the peer. -/
  | outside (op : Headless.Op)

namespace Event

/-- The component and the peer after an event. -/
def perform : Event → Component × Headless → Component × Headless
  | own op, x => (op.perform x.1 x.2).2
  | outside op, x => (x.1, (op.perform x.2).2)

/-- How many nodes an event makes. -/
def made : Event → Nat
  | own _ => 0
  | outside op => op.made

end Event

/-- The component and the peer after some events. -/
def history (x : Component × Headless) : List Event → Component × Headless
  | [] => x
  | e :: events => history (e.perform x) events

/-- How many nodes are made by some events. -/
def made : List Event → Nat
  | [] => 0
  | e :: events => e.made + made events

/-- An edit makes a table in use of one. -/
theorem reachable_edit (h : c.slots.Reachable) (e : Edit) : (c.edit e).slots.Reachable := by
  rw [slots_edit]
  exact h.stage _ _

/-- A burst makes a table in use of one. -/
theorem reachable_editAll (h : c.slots.Reachable) (es : List Edit) :
    (c.editAll es).slots.Reachable := by
  induction es generalizing c with
  | nil => exact h
  | cons e es ih => exact ih (reachable_edit h e)

theorem Op.reachable_perform (op : Op) (h : c.slots.Reachable) (p : Headless) :
    (op.perform c p).2.1.slots.Reachable := by
  cases op with
  | edit e => exact reachable_edit h e
  | commit => exact h.commit c.node p
  | style s =>
    rw [perform]
    by_cases alive : p.isAlive c.node = true
    · rcases Option.isSome_iff_exists.1 alive with ⟨node, hnode⟩
      rw [StateStyles.apply_of_node? hnode]
      exact reachable_editAll h _
    · rw [StateStyles.apply_of_dead (Bool.eq_false_iff.2 alive)]
      exact h
  | setState s => exact h

/-- A component on a node, after so many nodes were made. -/
structure Tracked (n : NodeHandle) (k : Nat) (x : Component × Headless) : Prop where
  node : x.1.node = n
  reachable : x.1.slots.Reachable
  counted : x.2.Counted k

/-- A component whose node was removed. Since some time, no attribute has a committed value that had
none by then. -/
structure Orphaned (n : NodeHandle) (k : Nat) (before : Component) (x : Component × Headless) :
    Prop extends Tracked n k x where
  retired : x.2.Retired n
  fewer (a : Attribute) (h : x.1.slots.Commits a) : before.slots.Commits a

variable {n : NodeHandle} {k : Nat} {before : Component} {x : Component × Headless}

theorem Tracked.perform (h : Tracked n k x) (e : Event) (room : k + e.made < UInt64.size) :
    Tracked n (k + e.made) (e.perform x) := by
  cases e with
  | own op =>
    exact ⟨(op.node_perform x.1 x.2).trans h.node, op.reachable_perform h.reachable x.2,
      h.counted.steady (op.steady_perform x.1 x.2)⟩
  | outside op => exact ⟨h.node, h.reachable, h.counted.perform op room⟩

namespace Orphaned

theorem dead (h : Orphaned n k before x) : x.2.isAlive x.1.node = false := by
  rw [h.node]
  exact h.retired.dead

/-- No operation of a component without its node gives an attribute a committed value. -/
theorem commits_perform (h : Orphaned n k before x) (op : Op) {a : Attribute}
    (ha : (op.perform x.1 x.2).2.1.slots.Commits a) : x.1.slots.Commits a := by
  cases op with
  | edit e =>
    rw [Op.perform, slots_edit] at ha
    exact ha.of_stage
  | commit =>
    rcases ha with ⟨f, hf, -⟩
    exact .of_commit_of_dead h.reachable.occupied h.dead hf
  | style s =>
    rw [Op.perform, StateStyles.apply_of_dead h.dead] at ha
    exact ha
  | setState s => exact ha

/-- A slot that a pass leaves has had a committed value all along. -/
theorem commits_of_left (h : Orphaned n k before x) {a : Attribute}
    (ha : a ∈ (x.1.commit x.2).2.1.slots.attributes) : before.slots.Commits a := by
  rcases AttributeMap.contains_iff.1 (AttributeMap.mem_keys.1 ha) with ⟨f, hf⟩
  exact h.fewer a (.of_commit_of_dead h.reachable.occupied h.dead hf)

theorem perform (h : Orphaned n k before x) (e : Event) (room : k + e.made < UInt64.size) :
    Orphaned n (k + e.made) before (e.perform x) := by
  refine { h.toTracked.perform e room with retired := ?_, fewer := ?_ }
  · cases e with
    | own op => exact h.retired.steady (op.steady_perform x.1 x.2)
    | outside op =>
      have hlast := h.counted.last
      exact h.retired.perform op (hlast ▸ room)
  · intro a ha
    cases e with
    | own op => exact h.fewer a (h.commits_perform op ha)
    | outside op => exact h.fewer a ha

end Orphaned

/-- What every event keeps for which there is room, with the number of nodes made, is kept along a
run. -/
theorem history_keeps {P : Nat → Component × Headless → Prop}
    (step : ∀ {k x} (e : Event), P k x → k + e.made < UInt64.size → P (k + e.made) (e.perform x))
    (events : List Event) (h : P k x) (room : k + made events < UInt64.size) :
    P (k + made events) (history x events) := by
  induction events generalizing k x with
  | nil => exact h
  | cons e events ih =>
    have hmade : k + made (e :: events) = k + e.made + made events :=
      (Nat.add_assoc k e.made (made events)).symm
    rw [hmade]
    exact ih (step e h (by omega)) (hmade ▸ room)

theorem Tracked.history (h : Tracked n k x) (events : List Event)
    (room : k + made events < UInt64.size) : Tracked n (k + made events) (history x events) :=
  history_keeps (fun e h room => h.perform e room) events h room

theorem Orphaned.history (h : Orphaned n k before x) (events : List Event)
    (room : k + made events < UInt64.size) :
    Orphaned n (k + made events) before (history x events) :=
  history_keeps (P := fun k x => Orphaned n k before x) (fun e h room => h.perform e room) events h
    room

/-- A component was in use on a new peer, its node was alive and was removed, and there is room for
the handles of all nodes that are made. Then every later pass comes to nothing. It leaves a slot
only if a value was committed for the attribute when the node was removed, and no pass that follows
leaves a slot that it did not. -/
theorem removed_stays_dead {c : Component} (reachable : c.slots.Reachable)
    {before later more : List Event} {x y z : Component × Headless}
    (room : made before + made later + made more < UInt64.size)
    (used : x = history (c, {}) before) (alive : x.2.isAlive c.node = true)
    (removed : y = history (x.1, (x.2.removeNode c.node).2) later)
    (passed : z = history (y.1.commit y.2).2 more) :
    Fruitless c.node y.1 y.2 (y.1.commit y.2) ∧
    (∀ a ∈ (y.1.commit y.2).2.1.slots.attributes,
      ∃ w, (x.1.slot? a).bind (·.committed) = some w) ∧
    ∀ a ∈ (z.1.commit z.2).2.1.slots.attributes, a ∈ (y.1.commit y.2).2.1.slots.attributes := by
  have hx : Tracked c.node (made before) x := by
    rw [used]
    have hstart : Tracked c.node 0 (c, {}) := ⟨rfl, reachable, Headless.counted_empty⟩
    simpa only [Nat.zero_add] using hstart.history before (by omega)
  have hremoved : Orphaned c.node (made before) x.1 (x.1, (x.2.removeNode c.node).2) :=
    { hx with
      counted := hx.counted.removeNode c.node
      retired := hx.counted.retire alive
      fewer := fun _ h => h }
  have hy : Orphaned c.node (made before + made later) x.1 y := by
    rw [removed]
    exact hremoved.history later (by omega)
  have hz : Orphaned c.node (made before + made later + made more) (y.1.commit y.2).2.1 z := by
    have hroom : made before + made later + 0 < UInt64.size := by omega
    have hcommit := hy.perform (.own .commit) hroom
    -- from here on the component is held against what the pass left of it
    rw [passed]
    exact Orphaned.history { hcommit with fewer := fun _ h => h } more room
  have hpass := fruitless_commit hy.reachable.keyed hy.dead
  rw [hy.node] at hpass
  refine ⟨hpass, ?_, ?_⟩
  · intro a ha
    rcases hy.commits_of_left ha with ⟨⟨k, slot⟩, hslot, w, hw⟩
    have htarget : (Catalog.policy k).target = a := hx.reachable.keyed a _ hslot
    obtain rfl : k = Standard.setKind a := by rw [← htarget, Standard.setKind_target]
    rw [slot?_eq_some_iff.2 hslot]
    exact ⟨w, hw⟩
  · intro a ha
    rcases hz.commits_of_left ha with ⟨e, he, -⟩
    exact AttributeMap.mem_keys.2 (AttributeMap.contains_iff.2 ⟨e, he⟩)

/-- The node is removed after its width was committed, and another node is made. Setting the width
again fails, and so does unsetting the height. Then the width is set once more, and the opacity, and
still no slot is left but that of the width. -/
theorem removed_stays_dead_width_and_height :
    let c : Component := { node := ⟨1⟩ }
    let x := history (c, {})
      [.outside .create, .own (.edit (.set .width (.vp 1))), .own .commit]
    let y := history (x.1, (x.2.removeNode c.node).2)
      [.outside .create, .own (.edit (.set .width (.vp 2))), .own (.edit (.unset .height))]
    let z := history (y.1.commit y.2).2
      [.own (.edit (.set .width (.vp 3))), .own (.edit (.set .opacity (.value 1)))]
    (y.1.commit y.2).1.applied = 0 ∧
      (y.1.commit y.2).1.errors.filter (·.target = .width) = [.apply .width (.unknownNode ⟨1⟩)] ∧
      (y.1.commit y.2).1.errors.filter (·.target = .height) = [.reset .height (.unknownNode ⟨1⟩)] ∧
      ∀ a ∈ (z.1.commit z.2).2.1.slots.attributes, a = .width := by
  intro c x y z
  rcases removed_stays_dead (x := x) (y := y) (z := z) .empty (by decide) rfl rfl rfl rfl with
    ⟨hpass, -, hfewer⟩
  have hbefore : x.1.slot? .width = some ⟨none, some (Length.vp 1)⟩ ∧ x.1.slot? .height = none :=
    ⟨rfl, rfl⟩
  have hy : y.1 = x.1.editAll [.set .width (.vp 2), .unset .height] := rfl
  have hwidth : y.1.slot? .width = some ⟨some (.value (Length.vp 2)), some (Length.vp 1)⟩ := by
    have hlast : Edit.lastRequest? .width [.set .width (Length.vp 2), .unset .height] =
        some (some (Length.vp 2)) := rfl
    rw [hy, slot?_editAll _ hlast, hbefore.1]
    rfl
  have hheight : y.1.slot? .height = some ⟨some .unset, none⟩ := by
    have hlast : Edit.lastRequest? .height [.set .width (Length.vp 2), .unset .height] =
        some none := rfl
    rw [hy, slot?_editAll _ hlast, hbefore.2]
    rfl
  have hchanged : Standard.unchanged .width (Length.vp 2) (Length.vp 1) = false := by
    decide +kernel
  have hleft : (y.1.commit y.2).2.1.slots.attributes = [.width] := by decide +kernel
  refine ⟨hpass.applied, hpass.applyFailed hwidth rfl (.inr ⟨_, rfl, hchanged⟩),
    (hpass.resetFailed hheight rfl).1, ?_⟩
  intro a ha
  have hkept := hfewer a ha
  rw [hleft] at hkept
  exact List.mem_singleton.1 hkept

end Component

end Reconciler
