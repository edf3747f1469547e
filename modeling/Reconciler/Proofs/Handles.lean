import Reconciler.Proofs.Interleaving
import Reconciler.Proofs.Operations

/-!
# Handles

A headless peer counts up a word to make handles. While fewer nodes are made than the word has
values, the word is the number of the nodes made, and no live node has a handle beyond it
(`Headless.Counted`). A new handle is then larger than all before it. So a node that was removed is
never made again, though others are (`Headless.Retired`).

Both are kept by every operation on the peer, and by those of components, which make no node and
take none away (`Component.Op.steady_perform`).
-/

namespace Reconciler

namespace Headless

/-! ## Counting the nodes made -/

/-- So many nodes were made, and no live node has a handle beyond that number. -/
structure Counted (k : Nat) (p : Headless) : Prop where
  last : p.last.toNat = k
  le {n : NodeHandle} (alive : p.isAlive n = true) : n.raw.toNat ≤ k

/-- A node is not alive, and its handle is not one of those still to come. -/
structure Retired (n : NodeHandle) (p : Headless) : Prop where
  dead : p.isAlive n = false
  le : n.raw.toNat ≤ p.last.toNat

variable {k : Nat} {n : NodeHandle} {p q : Headless}

/-- While there is room in the word, the next handle is the one after the last. -/
theorem toNat_createNode (room : p.last.toNat + 1 < UInt64.size) :
    p.createNode.1.raw.toNat = p.last.toNat + 1 ∧
      p.createNode.2.last.toNat = p.last.toNat + 1 := by
  have hnext : (p.last + 1).toNat = p.last.toNat + 1 := by
    rw [UInt64.toNat_add]
    exact Nat.mod_eq_of_lt room
  exact ⟨hnext, hnext⟩

theorem counted_empty : Counted 0 {} :=
  ⟨rfl, fun alive => nomatch alive⟩

namespace Counted

theorem steady (h : Counted k p) (hs : Steady p q) : Counted k q := by
  constructor
  · rw [hs.last, h.last]
  · intro n alive
    rw [hs.isAlive] at alive
    exact h.le alive

theorem removeNode (h : Counted k p) (n : NodeHandle) : Counted k (p.removeNode n).2 := by
  refine ⟨h.last, ?_⟩
  intro m alive
  exact h.le (isAlive_removeNode_iff.1 alive).2

theorem createNode (h : Counted k p) (room : k + 1 < UInt64.size) :
    Counted (k + 1) p.createNode.2 := by
  obtain rfl := h.last
  have hnext := toNat_createNode room
  refine ⟨hnext.2, ?_⟩
  intro m alive
  rcases isAlive_createNode_iff.1 alive with rfl | alive
  · exact Nat.le_of_eq hnext.1
  · exact Nat.le_trans (h.le alive) (Nat.le_succ _)

/-- A live node that is removed is retired. -/
theorem retire (h : Counted k p) (alive : p.isAlive n = true) :
    Retired n (p.removeNode n).2 := by
  constructor
  · rw [Bool.eq_false_iff]
    intro again
    exact (isAlive_removeNode_iff.1 again).1 rfl
  · exact Nat.le_trans (h.le alive) (Nat.le_of_eq h.last.symm)

end Counted

namespace Retired

theorem steady (h : Retired n p) (hs : Steady p q) : Retired n q := by
  constructor
  · rw [hs.isAlive, h.dead]
  · rw [hs.last]
    exact h.le

theorem removeNode (h : Retired n p) (m : NodeHandle) : Retired n (p.removeNode m).2 := by
  refine ⟨?_, h.le⟩
  rw [Bool.eq_false_iff]
  intro again
  exact Bool.eq_false_iff.1 h.dead (isAlive_removeNode_iff.1 again).2

theorem createNode (h : Retired n p) (room : p.last.toNat + 1 < UInt64.size) :
    Retired n p.createNode.2 := by
  have hnext := toNat_createNode room
  have hle := h.le
  constructor
  · rw [Bool.eq_false_iff]
    intro again
    rcases isAlive_createNode_iff.1 again with rfl | again
    · omega
    · exact Bool.eq_false_iff.1 h.dead again
  · rw [hnext.2]
    omega

end Retired

/-! ## What operations do to the count -/

theorem Counted.perform (h : Counted k p) (op : Op) (room : k + op.made < UInt64.size) :
    Counted (k + op.made) (op.perform p).2 := by
  rcases op.perform_cases p with rfl | ⟨n, rfl⟩ | ⟨hmade, hs⟩
  · exact h.createNode room
  · exact h.removeNode n
  · rw [hmade]
    exact h.steady hs

theorem Retired.perform (h : Retired n p) (op : Op) (room : p.last.toNat + op.made < UInt64.size) :
    Retired n (op.perform p).2 := by
  rcases op.perform_cases p with rfl | ⟨m, rfl⟩ | ⟨-, hs⟩
  · exact h.createNode room
  · exact h.removeNode m
  · exact h.steady hs

/-! ## Components make no nodes -/

/-- A pass makes calls, and does nothing else. -/
theorem Steady.commit {κ : Type} [Catalog κ] [DirectCatalog κ] (t : Table κ) (n : NodeHandle)
    (p : Headless) : Steady p (t.commit n p).2.2 := by
  refine t.commit_keeps ?_ (.refl p)
  intro e q s r hq hs
  rcases hs.call with rfl | ⟨c, -, -, rfl⟩
  · exact hq
  · rw [snd_send]
    exact hq.trans (.receive c q)

end Headless

/-- An operation of a component makes no node and takes none away. -/
theorem Component.Op.steady_perform (op : Op) (c : Component) (p : Headless) :
    Headless.Steady p (op.perform c p).2.2 := by
  cases op with
  | edit e => exact .refl p
  | commit => exact .commit c.slots c.node p
  | style s =>
    rw [perform, s.snd_apply]
    exact .update p c.node fun node => { node with supported := s.supported }
  | setState s => exact .update p c.node fun node => { node with state := s }

end Reconciler
