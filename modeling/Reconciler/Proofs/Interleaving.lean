import Mathlib.Logic.Function.Basic
import Reconciler.Proofs.Rendered
import Reconciler.Proofs.Simulation
import Reconciler.StateStyles

/-!
# Components on different nodes do not interfere

Components share one peer, with one map of nodes and one journal. Their operations may come in any
order, so that a pass of one component falls between two edits of another. Still, each of them sees
and leaves what it would alone (`Component.playAll_own`).

Styles are fixed lists of edits, as everywhere: a style that looks at the component, or at anything
else, before it stages is not among the operations here.

`Headless.AgreeOn` is the view that a component has of the peer: its node, and the calls about it.
Two facts carry the proof. An operation is answered alike by peers that agree on its node, and they
agree on it afterwards (`Component.Op.agree_perform`). And it changes nothing in the view of any
other node (`Component.Op.agree_perform_elsewhere`).
-/

namespace Reconciler

/-! ## Peers that agree on a node -/

/-- Two peers agree on a node: either both have it, with the same attributes, in the same state and
with styles for the same states, or neither has it. And they got the same calls about it. -/
structure Headless.AgreeOn (n : NodeHandle) (p q : Headless) : Prop where
  node? : p.node? n = q.node? n
  journal : p.journal.filter (·.node = n) = q.journal.filter (·.node = n)

namespace Headless

theorem fst_update (p : Headless) (n : NodeHandle) (f : Node → Node) :
    (p.update n f).1 = if p.isAlive n then .ok () else .error (.unknownNode n) := by
  unfold update
  split <;> rfl

/-- How a call ends is told by how it is received. -/
theorem fst_send_congr {c : Call} {p q : Headless} (h : (p.receive c).1 = (q.receive c).1) :
    (Peer.send c p).1 = (Peer.send c q).1 := by
  rcases hp : p.receive c with ⟨_ | _, p'⟩ <;> rcases hq : q.receive c with ⟨_ | _, q'⟩ <;>
    simp_all [Peer.send]

namespace AgreeOn

variable {n m : NodeHandle} {p q r : Headless}

theorem refl (n : NodeHandle) (p : Headless) : AgreeOn n p p := ⟨rfl, rfl⟩

theorem symm (h : AgreeOn n p q) : AgreeOn n q p := ⟨h.node?.symm, h.journal.symm⟩

theorem trans (h : AgreeOn n p q) (k : AgreeOn n q r) : AgreeOn n p r :=
  ⟨h.node?.trans k.node?, h.journal.trans k.journal⟩

theorem state_eq (h : AgreeOn n p q) : p.state n = q.state n := by
  unfold state
  rw [h.node?]

theorem attributes_eq (h : AgreeOn n p q) : p.attributes n = q.attributes n := by
  unfold attributes
  rw [h.node?]

theorem supported?_eq (h : AgreeOn n p q) : p.supported? n = q.supported? n := by
  unfold supported?
  rw [h.node?]

/-- A change of the node ends alike, and the peers still agree. -/
theorem update (h : AgreeOn n p q) (f : Node → Node) :
    (p.update n f).1 = (q.update n f).1 ∧ AgreeOn n (p.update n f).2 (q.update n f).2 := by
  refine ⟨?_, ?_, ?_⟩
  · rw [fst_update, fst_update, isAlive, isAlive, h.node?]
  · rw [node?_update, node?_update, h.node?]
  · rw [journal_update, journal_update, h.journal]

/-- A change of another node leaves the view alone. -/
theorem update_elsewhere (h : n ≠ m) (p : Headless) (f : Node → Node) :
    AgreeOn n p (p.update m f).2 := by
  constructor
  · rw [node?_update, if_neg h]
  · rw [journal_update]

/-- Calls about the node are answered alike, and the peers still agree. -/
theorem simulation (n : NodeHandle) : Peer.Simulation (fun c => c.node = n) (AgreeOn n) := by
  have hreceive : ∀ {c : Call} {p q : Headless}, AgreeOn c.node p q →
      (p.receive c).1 = (q.receive c).1 ∧ AgreeOn c.node (p.receive c).2 (q.receive c).2 := by
    intro c p q h
    have hjournal : AgreeOn c.node { p with journal := p.journal ++ [c] }
        { q with journal := q.journal ++ [c] } := by
      refine ⟨h.node?, ?_⟩
      rw [List.filter_append, List.filter_append, h.journal]
    exact hjournal.update (render c)
  constructor
  · rintro p q h c rfl
    exact fst_send_congr (hreceive h).1
  · rintro p q h c rfl
    rw [snd_send, snd_send]
    exact (hreceive h).2

/-- A call about another node leaves the view alone. -/
theorem send_elsewhere {c : Call} (h : n ≠ c.node) (p : Headless) :
    AgreeOn n p (Peer.send c p).2 := by
  rw [snd_send]
  constructor
  · rw [node?_receive, if_neg h]
  · rw [journal_receive, List.filter_append]
    simp [Ne.symm h]

end AgreeOn

end Headless

/-- Slots of single calls make calls about the node they are committed to. -/
theorem Entry.calls_node {κ : Type} [Catalog κ] [DirectCatalog κ] (node : NodeHandle)
    (e : Entry κ) : e.Calls (fun c => c.node = node) node := by
  constructor
  · intro v
    rw [Entry.policy, DirectCatalog.apply_eq]
    exact ⟨rfl, fun _ => trivial⟩
  · rw [Entry.policy, DirectCatalog.reset_eq]
    exact ⟨rfl, fun _ => trivial⟩

/-- A pass on another node leaves the view alone. -/
theorem Table.agree_commit_elsewhere {κ : Type} [Catalog κ] [DirectCatalog κ] {n node : NodeHandle}
    (h : n ≠ node) (t : Table κ) (p : Headless) : p.AgreeOn n (t.commit node p).2.2 := by
  refine t.commit_keeps ?_ (.refl n p)
  intro e q s r hq hs
  rcases hs.call with rfl | ⟨c, hc, -, rfl⟩
  · exact hq
  · exact hq.trans (.send_elsewhere (hc ▸ h) q)

namespace StateStyles

variable {α : Type} {n : NodeHandle} {p q : Headless}

/-- Finding the styles for a node declares which states have one, and does nothing else. -/
theorem snd_resolve (s : StateStyles α) (n : NodeHandle) (p : Headless) :
    (s.resolve n p).2 = (p.setSupported n s.supported).2 := by
  have hdeclare : StatefulPeer.declareSupported n s.supported p = p.setSupported n s.supported :=
    rfl
  unfold resolve
  rw [hdeclare]
  rcases p.setSupported n s.supported with ⟨_ | _, q⟩
  · rfl
  · simp only
    split <;> rfl

/-- Styles are found alike by peers that agree on the node. -/
theorem fst_resolve_congr (h : p.AgreeOn n q) (s : StateStyles α) :
    (s.resolve n p).1 = (s.resolve n q).1 := by
  have hdeclare : (StatefulPeer.declareSupported n s.supported p).1 =
        (StatefulPeer.declareSupported n s.supported q).1 ∧
      (StatefulPeer.declareSupported n s.supported p).2.AgreeOn n
        (StatefulPeer.declareSupported n s.supported q).2 :=
    h.update fun node => { node with supported := s.supported }
  unfold resolve
  generalize StatefulPeer.declareSupported n s.supported p = x at hdeclare ⊢
  generalize StatefulPeer.declareSupported n s.supported q = y at hdeclare ⊢
  rcases x with ⟨o, p'⟩
  rcases y with ⟨o', q'⟩
  -- both peers took the declaration and are asked for the state, or neither did
  obtain rfl : o = o' := hdeclare.1
  cases o with
  | error e => rfl
  | ok u =>
    have hstate : StatefulPeer.stateOf n p' = StatefulPeer.stateOf n q' := hdeclare.2.state_eq
    simp only [hstate]
    cases StatefulPeer.stateOf n q' <;> rfl

variable (s : StateStyles (List Edit)) (c : Component) (p : Headless)

/-- Applying styles changes the peer only to find them. -/
theorem snd_apply : (s.apply c p).2.2 = (p.setSupported c.node s.supported).2 := by
  rw [← snd_resolve]
  unfold apply
  rcases s.resolve c.node p with ⟨_ | _, q⟩ <;> rfl

/-- A component stays on its node. -/
theorem node_apply : (s.apply c p).2.1.node = c.node := by
  have hstyles : ∀ (styles : List (List Edit)) (c : Component),
      (styles.foldl Component.editAll c).node = c.node := by
    intro styles
    induction styles with
    | nil => exact fun _ => rfl
    | cons es styles ih => exact fun c => (ih (c.editAll es)).trans (c.node_editAll es)
  unfold apply
  rcases s.resolve c.node p with ⟨_ | found, q⟩
  · rfl
  · exact hstyles found.2 c

/-- Styles are applied alike on peers that agree on the node. -/
theorem fst_apply_congr {c : Component} {p q : Headless} (h : p.AgreeOn c.node q) :
    (s.apply c p).1 = (s.apply c q).1 ∧ (s.apply c p).2.1 = (s.apply c q).2.1 := by
  have hresolve := fst_resolve_congr h s
  unfold apply
  generalize s.resolve c.node p = x at hresolve ⊢
  generalize s.resolve c.node q = y at hresolve ⊢
  rcases x with ⟨o, p'⟩
  rcases y with ⟨o', q'⟩
  obtain rfl : o = o' := hresolve
  cases o <;> exact ⟨rfl, rfl⟩

end StateStyles

namespace Component

/-! ## Operations, alone and interleaved -/

/-- What may be done with a component on a headless peer. -/
inductive Op where
  /-- An attribute is set or unset. -/
  | edit (e : Edit)
  /-- The component is committed. -/
  | commit
  /-- Styles, each a fixed list of edits, are applied for the state that the node is in. -/
  | style (s : StateStyles (List Edit))
  /-- The platform moves the component's node into a state. -/
  | setState (s : UiState)

/-- What an operation answers. -/
inductive Reply where
  | staged
  | committed (r : Report)
  | styled (r : Except PeerError UiState)
  | moved (r : Except PeerError Unit)

/-- The answer of an operation, and the component and the peer after it. -/
def Op.perform : Op → Component → Headless → Reply × Component × Headless
  | edit e, c, p => (.staged, c.edit e, p)
  | commit, c, p =>
    let (r, c, p) := c.commit p
    (.committed r, c, p)
  | style s, c, p =>
    let (r, c, p) := s.apply c p
    (.styled r, c, p)
  | setState s, c, p =>
    let (r, p) := p.setState c.node s
    (.moved r, c, p)

/-- The operations of one component: the answer and the slots after each of them, and the component
and the peer at the end. -/
def play (c : Component) (p : Headless) :
    List Op → List (Reply × Table Standard.Kind) × Component × Headless
  | [] => ([], c, p)
  | op :: ops =>
    let (r, c, p) := op.perform c p
    let (trace, d, q) := play c p ops
    ((r, c.slots) :: trace, d, q)

/-- The operations of several components in one order: after each of them its answer and the slots
of its component, and all components and the peer at the end. -/
def playAll {ι : Type} [DecidableEq ι] (cs : ι → Component) (p : Headless) :
    List (ι × Op) → List (ι × Reply × Table Standard.Kind) × (ι → Component) × Headless
  | [] => ([], cs, p)
  | (i, op) :: ops =>
    let (r, c, p) := op.perform (cs i) p
    let (trace, ds, q) := playAll (Function.update cs i c) p ops
    ((i, r, c.slots) :: trace, ds, q)

/-- What is marked as that of one component. -/
def own {ι α : Type} [DecidableEq ι] (i : ι) (xs : List (ι × α)) : List α :=
  (xs.filter (·.1 = i)).map (·.2)

namespace Op

variable {c : Component} {p q : Headless} {n : NodeHandle}

/-- No operation moves a component to another node. -/
theorem node_perform (op : Op) (c : Component) (p : Headless) :
    (op.perform c p).2.1.node = c.node := by
  cases op with
  | edit e => exact c.node_edit e
  | commit => rfl
  | style s => exact s.node_apply c p
  | setState s => rfl

/-- An operation is answered alike by peers that agree on the node of its component. It leaves the
same component with both, and they still agree. -/
theorem agree_perform (op : Op) (h : p.AgreeOn c.node q) :
    (op.perform c p).1 = (op.perform c q).1 ∧ (op.perform c p).2.1 = (op.perform c q).2.1 ∧
      (op.perform c p).2.2.AgreeOn c.node (op.perform c q).2.2 := by
  cases op with
  | edit e => exact ⟨rfl, rfl, h⟩
  | commit =>
    have hcommit := (Headless.AgreeOn.simulation c.node).commit (t := c.slots)
      (fun x _ => x.2.calls_node c.node) h
    exact ⟨congrArg Reply.committed hcommit.1, congrArg (Component.mk c.node) hcommit.2.1,
      hcommit.2.2⟩
  | style s =>
    have happly := s.fst_apply_congr h
    have hpeer := (h.update fun node => { node with supported := s.supported }).2
    refine ⟨congrArg Reply.styled happly.1, happly.2, ?_⟩
    rw [perform, perform, s.snd_apply, s.snd_apply]
    exact hpeer
  | setState s =>
    have hstate := h.update fun node => { node with state := s }
    exact ⟨congrArg Reply.moved hstate.1, rfl, hstate.2⟩

/-- An operation of a component changes nothing in the view of another node. -/
theorem agree_perform_elsewhere (op : Op) (h : n ≠ c.node) (p : Headless) :
    p.AgreeOn n (op.perform c p).2.2 := by
  cases op with
  | edit e => exact .refl n p
  | commit => exact c.slots.agree_commit_elsewhere h p
  | style s =>
    rw [perform, s.snd_apply]
    exact .update_elsewhere h p fun node => { node with supported := s.supported }
  | setState s => exact .update_elsewhere h p fun node => { node with state := s }

end Op

section Interleaving

variable {ι : Type} [DecidableEq ι]

theorem own_cons_self {α : Type} (i : ι) (x : α) (xs : List (ι × α)) :
    own i ((i, x) :: xs) = x :: own i xs := by
  simp [own]

theorem own_cons_of_ne {α : Type} {i j : ι} (h : j ≠ i) (x : α) (xs : List (ι × α)) :
    own i ((j, x) :: xs) = own i xs := by
  simp [own, h]

variable {cs : ι → Component} {p q : Headless}

/-- No operation of any component moves one of them to another node. -/
theorem node_update (j : ι) (op : Op) (p : Headless) (k : ι) :
    (Function.update cs j (op.perform (cs j) p).2.1 k).node = (cs k).node := by
  by_cases hk : k = j
  · subst hk
    rw [Function.update_self, op.node_perform]
  · rw [Function.update_of_ne hk]

/-- Components on different nodes do not interfere. In whatever order their operations come, each
component gets the answers and has the slots that it would if its own operations were all, on any
peer that agrees on its node; and the peers agree on the node at the end. -/
theorem playAll_own (apart : Function.Injective fun i => (cs i).node) (i : ι)
    (agree : p.AgreeOn (cs i).node q) (ops : List (ι × Op)) :
    let all := playAll cs p ops
    let alone := (cs i).play q (own i ops)
    own i all.1 = alone.1 ∧ all.2.1 i = alone.2.1 ∧ all.2.2.AgreeOn (cs i).node alone.2.2 := by
  induction ops generalizing cs p q with
  | nil => exact ⟨rfl, rfl, agree⟩
  | cons x ops ih =>
    rcases x with ⟨j, op⟩
    have hapart : Function.Injective fun k =>
        (Function.update cs j (op.perform (cs j) p).2.1 k).node := by
      simpa only [node_update] using apart
    by_cases hj : j = i
    · -- an operation of its own is answered alike
      subst hj
      have hop := op.agree_perform agree
      have hrest := ih hapart (p := (op.perform (cs j) p).2.2) (q := (op.perform (cs j) q).2.2)
        (by rw [node_update]; exact hop.2.2)
      rw [node_update, Function.update_self, hop.2.1] at hrest
      rw [own_cons_self]
      simp only [playAll, play, own_cons_self, hop.1, hop.2.1]
      exact ⟨congrArg (List.cons _) hrest.1, hrest.2⟩
    · -- an operation of another component changes nothing that it sees
      have hother := op.agree_perform_elsewhere (fun h => hj (apart h).symm) p
      have hrest := ih hapart (p := (op.perform (cs j) p).2.2) (q := q)
        (by rw [node_update]; exact hother.symm.trans agree)
      rw [node_update, Function.update_of_ne (Ne.symm hj)] at hrest
      rw [own_cons_of_ne hj]
      simp only [playAll, own_cons_of_ne hj]
      exact hrest

/-- Two components are edited, styled and committed in turns, while the node of the first is
pressed. Only the first one is styled for it, and the second is left without attributes. -/
theorem playAll_own_two_nodes :
    let p := ({} : Headless).createNode
    let q := p.2.createNode
    let cs : Bool → Component := fun i => { node := if i then p.1 else q.1 }
    let pressed : StateStyles (List Edit) := { pressed := some [.set .opacity (.value 0)] }
    let ops : List (Bool × Op) := [(true, .edit (.set .width (.vp 1))),
      (false, .edit (.set .height (.vp 2))), (true, .setState .pressed), (false, .commit),
      (false, .style pressed), (true, .style pressed), (false, .edit (.unset .height)),
      (true, .commit), (false, .commit)]
    let all := playAll cs q.2 ops
    all.2.2.supported? p.1 = some .pressed ∧ all.2.2.attributes p.1 = [.width, .opacity] ∧
      all.2.2.attributes q.1 = [] ∧
      (all.2.2.journal.filter (·.node = q.1)).map Call.target = [.height, .height] := by
  intro p q cs pressed ops all
  have apart : Function.Injective fun i => (cs i).node := by
    intro i j h
    cases i <;> cases j <;> first | rfl | cases h
  have hfirst : all.2.2.AgreeOn p.1 ((cs true).play q.2 (own true ops)).2.2 :=
    (playAll_own apart true (.refl _ q.2) ops).2.2
  have hsecond : all.2.2.AgreeOn q.1 ((cs false).play q.2 (own false ops)).2.2 :=
    (playAll_own apart false (.refl _ q.2) ops).2.2
  rw [hfirst.supported?_eq, hfirst.attributes_eq, hsecond.attributes_eq, hsecond.journal]
  decide +kernel

end Interleaving

end Component

end Reconciler
