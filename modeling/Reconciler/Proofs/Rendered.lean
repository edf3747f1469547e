import Reconciler.Peer.Headless
import Reconciler.Proofs.Account

/-!
# What a headless peer renders

The attributes that a headless peer keeps for a node are a record of the calls about it
(`Headless.account`). A live node stays alive under every call, and takes every call about it, so
nothing is acknowledged but not rendered.

`Headless.Spares` says of a change that it leaves the attributes of one node alone, as everything
does that is about another node.
-/

namespace Reconciler.Headless

/-- All that is rendered of a node. -/
def rendered (n : NodeHandle) (p : Headless) : AttributeMap (List WireValue) :=
  ((p.node? n).map (·.attributes)).getD ∅

theorem get?_rendered (n : NodeHandle) (p : Headless) (a : Attribute) :
    (p.rendered n).get? a = p.attribute? n a := by
  unfold rendered attribute?
  cases p.node? n with
  | none => exact AttributeMap.get?_emptyCollection a
  | some node => rfl

/-- Changing a node makes none. -/
theorem last_update (p : Headless) (n : NodeHandle) (f : Node → Node) :
    (p.update n f).2.last = p.last := by
  unfold update
  split <;> rfl

/-- Changing a node takes none away either. -/
theorem isAlive_update (p : Headless) (m : NodeHandle) (f : Node → Node) (n : NodeHandle) :
    (p.update m f).2.isAlive n = p.isAlive n := by
  rw [isAlive, isAlive, node?_update]
  split
  · exact Option.isSome_map
  · rfl

theorem isAlive_createNode_iff {p : Headless} {n : NodeHandle} :
    p.createNode.2.isAlive n = true ↔ n = p.createNode.1 ∨ p.isAlive n = true := by
  rw [isAlive, isAlive, node?_createNode]
  split <;> simp_all

theorem isAlive_removeNode_iff {p : Headless} {n m : NodeHandle} :
    (p.removeNode m).2.isAlive n = true ↔ n ≠ m ∧ p.isAlive n = true := by
  rw [isAlive, isAlive, node?_removeNode]
  split <;> simp_all

/-- A change of a node that is not alive fails, and nothing is changed. -/
theorem update_of_dead {n : NodeHandle} {p : Headless} (dead : p.isAlive n = false)
    (f : Node → Node) : p.update n f = (.error (.unknownNode n), p) := by
  rw [update, dead]
  rfl

/-- A call about a node that is not alive fails, and is kept all the same. -/
theorem receive_of_dead {c : Call} {p : Headless} (dead : p.isAlive c.node = false) :
    p.receive c = (.error (.unknownNode c.node), { p with journal := p.journal ++ [c] }) :=
  update_of_dead (p := { p with journal := p.journal ++ [c] }) dead _

/-- A call succeeds exactly if its node is alive. -/
theorem fst_send_eq_ok_iff {c : Call} {p : Headless} :
    (Peer.send c p).1 = .ok () ↔ p.isAlive c.node = true := by
  rw [← receive_eq_ok_iff]
  rcases hreceive : p.receive c with ⟨_ | ⟨⟩, q⟩ <;> simp [Peer.send, hreceive]

/-- A live node takes every value that is brought to it. -/
theorem eq_ok_of_run_apply {κ : Type} [Catalog κ] [DirectCatalog κ] {k : κ} {v : Catalog.Value k}
    {n : NodeHandle} {p q : Headless} {o : Outcome PeerError Unit} (alive : p.isAlive n = true)
    (h : ((Catalog.policy k).apply n v).run p = (o, q)) : o = .ok () := by
  have hok : (Peer.send (.apply n (Catalog.policy k).target (DirectCatalog.args k v)) p).1 =
      .ok () := fst_send_eq_ok_iff.2 alive
  rwa [← run_apply, h] at hok

/-- A call changes the peer as it is received, however it ends. -/
theorem snd_send (c : Call) (p : Headless) : (Peer.send c p).2 = (p.receive c).2 := by
  rcases hreceive : p.receive c with ⟨_ | ⟨⟩, q⟩ <;> simp only [Peer.send, hreceive]

/-- No call makes or takes away a node. -/
theorem isAlive_receive (c : Call) (p : Headless) (n : NodeHandle) :
    (p.receive c).2.isAlive n = p.isAlive n :=
  isAlive_update { p with journal := p.journal ++ [c] } c.node (render c) n

/-- The commit of a slot neither makes nor takes away a node. -/
theorem isAlive_settles {κ : Type} [Catalog κ] [DirectCatalog κ] {n m : NodeHandle} {e : Entry κ}
    {s : Settlement κ} {p q : Headless} (hs : e.Settles n p s q) :
    q.isAlive m = p.isAlive m := by
  rcases hs.call with rfl | ⟨c, -, -, rfl⟩
  · rfl
  · rw [snd_send, isAlive_receive]

/-- The attributes of a node are a record of the calls about it. -/
def account (n : NodeHandle) : Account Headless n where
  read := rendered n
  read_send := by
    rintro c p rfl
    have hnode : (Peer.send c p).2.node? c.node = (p.node? c.node).map (render c) := by
      rw [snd_send, node?_receive, if_pos rfl]
    unfold rendered
    rw [hnode]
    cases hp : p.node? c.node with
    | some node =>
      have hok : (Peer.send c p).1 = .ok () := by
        rw [fst_send_eq_ok_iff, isAlive, hp]
        rfl
      rw [hok]
      cases c <;> rfl
    | none =>
      -- without a node there is nothing to write, and nothing to reset
      cases c with
      | apply n a xs =>
        have hfail : (Peer.send (.apply n a xs) p).1 ≠ .ok () := by
          rw [Ne, fst_send_eq_ok_iff, isAlive, hp]
          exact Bool.false_ne_true
        cases ho : (Peer.send (.apply n a xs) p).1 with
        | ok => exact absurd ho hfail
        | error e => rfl
        | panicked e => rfl
      | reset n a =>
        apply AttributeMap.ext
        intro b
        simp [Call.record, AttributeMap.get?_erase]

/-- A change that leaves the attributes of a node alone, and whether it is alive. -/
structure Spares (n : NodeHandle) (p q : Headless) : Prop where
  attribute?_eq (a : Attribute) : q.attribute? n a = p.attribute? n a
  isAlive_eq : q.isAlive n = p.isAlive n

/-- What keeps a node as it is leaves its attributes alone. -/
theorem Spares.of_node?_eq {n : NodeHandle} {p q : Headless} (h : q.node? n = p.node? n) :
    Spares n p q := by
  constructor
  · intro a
    simp only [attribute?, h]
  · simp only [isAlive, h]

theorem Spares.trans {n : NodeHandle} {p q r : Headless} (h : Spares n p q) (k : Spares n q r) :
    Spares n p r :=
  ⟨fun a => (k.attribute?_eq a).trans (h.attribute?_eq a), k.isAlive_eq.trans h.isAlive_eq⟩

/-- A change of any node that keeps its attributes leaves all attributes alone. -/
theorem Spares.update (n m : NodeHandle) (p : Headless) {f : Node → Node}
    (h : ∀ node, (f node).attributes = node.attributes) : Spares n p (p.update m f).2 := by
  refine ⟨?_, p.isAlive_update m f n⟩
  intro a
  rw [attribute?, attribute?, node?_update]
  split
  · cases p.node? n with
    | none => rfl
    | some node => simp only [Option.map_some, Option.bind_some, h]
  · rfl

theorem Spares.rendered_eq {n : NodeHandle} {p q : Headless} (h : Spares n p q) :
    q.rendered n = p.rendered n := by
  apply AttributeMap.ext
  intro a
  rw [get?_rendered, get?_rendered, h.attribute?_eq]

end Reconciler.Headless
