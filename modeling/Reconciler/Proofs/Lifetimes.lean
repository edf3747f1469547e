import Reconciler.Proofs.Handles

/-!
# Lifetimes of nodes

The handles that a new peer gives count up from one, so no two are equal while fewer nodes are made
than the word has values. A node lives from when it is made until it is removed for the first time,
and nothing brings its handle back (`Headless.handles_never_reused`). What was tried on a handle
before it was given leaves no trace on the node.

The invariant of a run is `Headless.Counted` with the number of the nodes made so far. A node that
is removed is `Headless.Retired` from then on.
-/

namespace Reconciler.Headless

/-- The handle that an answer gives. -/
def Answer.created? : Answer → Option NodeHandle
  | created n => some n
  | _ => none

/-- How many nodes are made by some operations. -/
def made : List Op → Nat
  | [] => 0
  | op :: ops => op.made + made ops

variable {k : Nat} {n : NodeHandle} {p : Headless} {op : Op} {ops : List Op}

theorem made_append (before after : List Op) :
    made (before ++ after) = made before + made after := by
  induction before with
  | nil => exact (Nat.zero_add _).symm
  | cons op before ih =>
    show op.made + made (before ++ after) = op.made + made before + made after
    omega

/-- The peer after a run is the peer after its last part, begun where the operation in the middle
leaves the first. -/
theorem snd_play_append_cons (p : Headless) (before : List Op) (op : Op) (after : List Op) :
    (p.play (before ++ op :: after)).2 = ((op.perform (p.play before).2).2.play after).2 := by
  rw [play_append]
  rfl

/-! ## Handles count up -/

/-- Only making a node gives a handle. -/
theorem Op.created?_perform (op : Op) (p : Headless) :
    op = .create ∨ op.made = 0 ∧ (op.perform p).1.created? = none := by
  cases op with
  | create => exact .inl rfl
  | _ => exact .inr ⟨rfl, rfl⟩

theorem Counted.play (h : Counted k p) (ops : List Op) (room : k + made ops < UInt64.size) :
    Counted (k + made ops) (p.play ops).2 := by
  induction ops generalizing k p with
  | nil => exact h
  | cons op ops ih =>
    have hmade : made (op :: ops) = op.made + made ops := rfl
    have hop : Counted (k + op.made) (op.perform p).2 := h.perform op (by omega)
    have hrest := ih hop (by omega)
    rw [hmade, ← Nat.add_assoc]
    exact hrest

/-- The handles given are the numbers that follow the number of the nodes made before. -/
theorem Counted.handles_play (h : Counted k p) (ops : List Op)
    (room : k + made ops < UInt64.size) :
    ((p.play ops).1.filterMap Answer.created?).map (·.raw.toNat) =
      List.range' (k + 1) (made ops) := by
  induction ops generalizing k p with
  | nil => rfl
  | cons op ops ih =>
    have hmade : made (op :: ops) = op.made + made ops := rfl
    have hop : Counted (k + op.made) (op.perform p).2 := h.perform op (by omega)
    have hrest := ih hop (by omega)
    have hanswers : (p.play (op :: ops)).1 = (op.perform p).1 :: ((op.perform p).2.play ops).1 :=
      rfl
    rcases op.created?_perform p with rfl | ⟨hnone, hcreated⟩
    · -- the new handle comes before those of the rest
      have hone : Op.create.made = 1 := rfl
      have hlast := h.last
      have hgiven : (Op.create.perform p).1.created? = some p.createNode.1 := rfl
      have hnext : p.createNode.1.raw.toNat = k + 1 := by
        rw [(toNat_createNode (by omega)).1, hlast]
      rw [hanswers, List.filterMap_cons_some hgiven, List.map_cons, hrest, hnext, hmade, hone,
        Nat.add_comm 1, List.range'_succ]
    · rw [hanswers, List.filterMap_cons_none hcreated, hrest, hmade, hnone]
      simp only [Nat.add_zero, Nat.zero_add]

/-! ## Nodes live until they are removed -/

/-- A live node stays alive under everything but its removal. -/
theorem Op.isAlive_perform (alive : p.isAlive n = true) (kept : op ≠ .remove n) :
    (op.perform p).2.isAlive n = true := by
  rcases op.perform_cases p with rfl | ⟨m, rfl⟩ | ⟨-, hs⟩
  · exact isAlive_createNode_iff.2 (.inr alive)
  · have hne : n ≠ m := by
      rintro rfl
      exact kept rfl
    exact isAlive_removeNode_iff.2 ⟨hne, alive⟩
  · rw [hs.isAlive]
    exact alive

theorem isAlive_play_of_not_mem (alive : p.isAlive n = true) (kept : .remove n ∉ ops) :
    (p.play ops).2.isAlive n = true := by
  induction ops generalizing p with
  | nil => exact alive
  | cons op ops ih =>
    rw [List.mem_cons, not_or] at kept
    exact ih (Op.isAlive_perform alive (Ne.symm kept.1)) kept.2

/-- Whether it was alive or not, a node that is removed is retired, if its handle was given. -/
theorem retired_removeNode (given : n.raw.toNat ≤ p.last.toNat) :
    Retired n (p.removeNode n).2 := by
  constructor
  · rw [Bool.eq_false_iff]
    intro again
    exact (isAlive_removeNode_iff.1 again).1 rfl
  · exact given

/-- A retired node stays so, as long as there is room for the nodes that are made. -/
theorem Retired.play (h : Retired n p) (hc : Counted k p) (ops : List Op)
    (room : k + made ops < UInt64.size) : Retired n (p.play ops).2 := by
  induction ops generalizing k p with
  | nil => exact h
  | cons op ops ih =>
    have hmade : made (op :: ops) = op.made + made ops := rfl
    have hlast := hc.last
    have hop : Retired n (op.perform p).2 := h.perform op (by omega)
    have hcop : Counted (k + op.made) (op.perform p).2 := hc.perform op (by omega)
    exact ih hop hcop (by omega)

/-- A node that was just made is alive after some operations exactly if none of them removes it. -/
theorem Counted.isAlive_play_createNode_iff (h : Counted k p) (ops : List Op)
    (room : k + 1 + made ops < UInt64.size) :
    (p.createNode.2.play ops).2.isAlive p.createNode.1 = true ↔ .remove p.createNode.1 ∉ ops := by
  have hlast := h.last
  have hnext := toNat_createNode (p := p) (by omega)
  have hcreated : Counted (k + 1) p.createNode.2 := h.createNode (by omega)
  constructor
  · intro alive removed
    obtain ⟨before, after, rfl⟩ := List.append_of_mem removed
    rw [made_append] at room
    have hmade : made (Op.remove p.createNode.1 :: after) = made after := Nat.zero_add _
    -- the word only counts up, so the handle is still one of those given
    have hbefore := hcreated.play before (by omega)
    have hgiven : p.createNode.1.raw.toNat ≤ (p.createNode.2.play before).2.last.toNat := by
      rw [hbefore.last, hnext.1, hlast]
      omega
    have hretired := (retired_removeNode hgiven).play (hbefore.removeNode _) after (by omega)
    rw [snd_play_append_cons] at alive
    exact Bool.eq_false_iff.1 hretired.dead alive
  · intro kept
    exact isAlive_play_of_not_mem (isAlive_createNode_iff.2 (.inl rfl)) kept

/-- A node that is not alive is in no state. -/
theorem state_of_dead (dead : p.isAlive n = false) : p.state n = .error (.unknownNode n) := by
  have hnone : p.node? n = none := by simpa [isAlive] using dead
  rw [state, hnone]

/-- Handles are never reused, in any use of a new peer that makes fewer nodes than a word has
values. The handles given strictly increase. A node that is made has no attributes, is in no
interaction state and has styles for none, whatever was tried on its handle before; from then on it
is alive until it is removed for the first time. A node that was alive and was removed is not alive
again. Removing a node tells whether it was alive, and everything else that is tried on a node that
is not alive fails. -/
theorem handles_never_reused (ops : List Op) (room : made ops < UInt64.size) :
    let p := (({} : Headless).play ops).2
    ((({} : Headless).play ops).1.filterMap Answer.created?).Pairwise (·.raw < ·.raw) ∧
    (∀ before after, ops = before ++ .create :: after →
      let n := (({} : Headless).play before).2.createNode.1
      let fresh := (({} : Headless).play before).2.createNode.2
      fresh.attributes n = [] ∧ fresh.state n = .ok .normal ∧ fresh.supported? n = some .normal ∧
        (p.isAlive n = true ↔ .remove n ∉ after)) ∧
    (∀ before n after, ops = before ++ .remove n :: after →
      (({} : Headless).play before).2.isAlive n = true → p.isAlive n = false) ∧
    (∀ n, (Op.remove n).perform p = (.removed (p.isAlive n), (p.removeNode n).2)) ∧
    ∀ n, p.isAlive n = false → p.state n = .error (.unknownNode n) ∧
      ∀ op : Op, op.subject? = some n → (op.perform p).1 = .ended (.error (.unknownNode n)) := by
  intro p
  refine ⟨?increasing, ?lives, ?gone, fun _ => rfl, ?fails⟩
  case increasing =>
    have hhandles := counted_empty.handles_play ops (by omega)
    have hsorted : (((({} : Headless).play ops).1.filterMap Answer.created?).map
        (·.raw.toNat)).Pairwise (· < ·) := by
      rw [hhandles]
      exact List.pairwise_lt_range'
    exact (List.pairwise_map.1 hsorted).imp UInt64.lt_iff_toNat_lt.2
  case lives =>
    rintro before after rfl n fresh
    rw [made_append] at room
    have hmade : made (Op.create :: after) = 1 + made after := rfl
    have hcounted := counted_empty.play before (by omega)
    have hnode : fresh.node? n = some {} := by
      rw [node?_createNode, if_pos rfl]
    refine ⟨?_, ?_, ?_, ?_⟩
    · rw [attributes, hnode]
      rfl
    · rw [state, hnode]
    · rw [supported?, hnode]
      rfl
    · have hend : p = (fresh.play after).2 := snd_play_append_cons _ _ _ _
      rw [hend]
      exact hcounted.isAlive_play_createNode_iff after (by omega)
  case gone =>
    rintro before n after rfl alive
    rw [made_append] at room
    have hmade : made (Op.remove n :: after) = made after := Nat.zero_add _
    have hcounted := counted_empty.play before (by omega)
    have hretired := (hcounted.retire alive).play (hcounted.removeNode n) after (by omega)
    have hend : p = (((({} : Headless).play before).2.removeNode n).2.play after).2 :=
      snd_play_append_cons _ _ _ _
    rw [hend]
    exact hretired.dead
  case fails =>
    intro n dead
    refine ⟨state_of_dead dead, ?_⟩
    intro op subject
    rw [Op.perform_of_dead subject dead]

/-- A node is removed, written and moved before it is made. Then it is made, and removed, and
another one is made, and the first is removed again: the second has a handle of its own, and the
first stays away. -/
theorem handles_never_reused_removed_twice :
    let n : NodeHandle := ⟨1⟩
    let before : List Op := [.remove n, .call (.apply n .width [.int 1]), .setState n .pressed]
    let after : List Op := [.remove n, .create, .remove n]
    let ops := before ++ .create :: after
    let p := (({} : Headless).play ops).2
    let fresh := (({} : Headless).play before).2.createNode.2
    made ops < UInt64.size ∧ ([⟨1⟩, ⟨2⟩] : List NodeHandle).Pairwise (·.raw < ·.raw) ∧
      fresh.attributes n = [] ∧ fresh.state n = .ok .normal ∧
      p.isAlive n = false ∧ p.isAlive ⟨2⟩ = true ∧ p.state n = .error (.unknownNode n) ∧
      ((Op.setState n .pressed).perform p).1 = .ended (.error (.unknownNode n)) := by
  intro n before after ops p fresh
  have room : made ops < UInt64.size := by decide
  rcases handles_never_reused ops room with ⟨increasing, lives, gone, -, fails⟩
  have hfresh := lives before after rfl
  have hdead : p.isAlive n = false := gone (before ++ [.create]) n [.create, .remove n] rfl rfl
  -- the second node is made by the fourth operation from the end, and only the first is removed
  have hsecond := lives (before ++ [.create, .remove n]) [.remove n] rfl
  refine ⟨room, increasing, hfresh.1, hfresh.2.1, hdead, hsecond.2.2.2.2 ?_, (fails n hdead).1,
    (fails n hdead).2 _ rfl⟩
  intro hremoved
  have hsame : (⟨2⟩ : NodeHandle) = n := Op.remove.inj (List.mem_singleton.1 hremoved)
  revert hsame
  decide

end Reconciler.Headless
