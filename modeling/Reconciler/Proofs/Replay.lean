import Reconciler.Proofs.Operations

/-!
# Reading a node back from the calls

Nothing but the calls decides what a headless peer renders of a node: an attribute shows the
arguments of the last call about it, if that call is a write (`Headless.replay`). Only the calls
count that were received since the node was made: its handle may have been used before, and then the
calls failed, though they are among the calls received.

`Headless.attribute?_play` is the invariant of a run in which the node is not made anew, and
`Headless.exists_madeLast` cuts any run into a part before the node was made for the last time, and
a part in which it is not.
-/

namespace Reconciler.Headless

/-- The last of some calls that is about an attribute of a node. -/
def lastCall? (n : NodeHandle) (a : Attribute) (cs : List Call) : Option Call :=
  cs.reverse.find? fun c => c.node = n ∧ c.target = a

section LastCall

variable {n : NodeHandle} {a : Attribute} {c : Call} {cs ds : List Call}

theorem lastCall?_append :
    lastCall? n a (cs ++ ds) = (lastCall? n a ds).or (lastCall? n a cs) := by
  rw [lastCall?, List.reverse_append, List.find?_append]
  rfl

theorem lastCall?_singleton :
    lastCall? n a [c] = if c.node = n ∧ c.target = a then some c else none := by
  rw [lastCall?, List.reverse_singleton, List.find?_singleton]
  simp only [decide_eq_true_eq]

/-- The last call about an attribute is about it. -/
theorem of_lastCall? (h : lastCall? n a cs = some c) : c.node = n ∧ c.target = a := by
  have hc := List.find?_some h
  exact of_decide_eq_true hc

/-- The last call has arguments exactly if it is the write of them. -/
theorem lastCall?_bind_args? {xs : List WireValue} :
    (lastCall? n a cs).bind Call.args? = some xs ↔ lastCall? n a cs = some (.apply n a xs) := by
  constructor
  · intro h
    rcases Option.bind_eq_some_iff.1 h with ⟨c, hlast, hargs⟩
    obtain ⟨rfl, rfl⟩ := of_lastCall? hlast
    cases c with
    | apply n a ys =>
      cases hargs
      exact hlast
    | reset n a => cases hargs
  · intro h
    rw [h]
    rfl

end LastCall

/-! ## What one operation does to a node -/

variable {p : Headless} {n : NodeHandle} {op : Op} {ops : List Op}

/-- A call about an attribute of a live node leaves there its arguments, or nothing. -/
theorem attribute?_receive (alive : p.isAlive n = true) (c : Call) (a : Attribute) :
    (p.receive c).2.attribute? n a =
      if c.node = n ∧ c.target = a then c.args? else p.attribute? n a := by
  rcases Option.isSome_iff_exists.1 alive with ⟨node, hnode⟩
  have hrender : ((render c node).attributes).get? a =
      if c.target = a then c.args? else node.attributes.get? a := by
    cases c with
    | apply m b xs => exact AttributeMap.get?_insert _ _ _ _
    | reset m b => exact AttributeMap.get?_erase _ _ _
  by_cases h : c.node = n
  · simp only [attribute?, node?_receive, hnode, h, if_true, Option.map_some, Option.bind_some,
      hrender, true_and]
  · simp only [attribute?, node?_receive, if_neg (Ne.symm h), h, false_and, if_false]

/-- A node that is alive after an operation and was not made by it was alive before. -/
theorem Op.isAlive_of_perform (alive : (op.perform p).2.isAlive n = true)
    (old : (op.perform p).1 ≠ .created n) : p.isAlive n = true := by
  rcases op.perform_cases p with rfl | ⟨m, rfl⟩ | ⟨-, hs⟩
  · refine (isAlive_createNode_iff.1 alive).resolve_left ?_
    rintro rfl
    exact old rfl
  · exact (isAlive_removeNode_iff.1 alive).2
  · rw [← hs.isAlive]
    exact alive

/-- Of a node that is alive after an operation and was not made by it, the operation changes what
its call says. -/
theorem Op.attribute?_perform (alive : (op.perform p).2.isAlive n = true)
    (old : (op.perform p).1 ≠ .created n) (a : Attribute) :
    (op.perform p).2.attribute? n a =
      (lastCall? n a op.call?.toList).elim (p.attribute? n a) Call.args? := by
  cases op with
  | create =>
    have hne : n ≠ p.createNode.1 := fun h => old (congrArg Answer.created h.symm)
    have hnode := p.node?_createNode n
    rw [if_neg hne] at hnode
    exact congrArg (Option.bind · (·.attributes.get? a)) hnode
  | remove m =>
    have hnode := p.node?_removeNode n m
    rw [if_neg (isAlive_removeNode_iff.1 alive).1] at hnode
    exact congrArg (Option.bind · (·.attributes.get? a)) hnode
  | call c =>
    have halive : p.isAlive n = true := Op.isAlive_of_perform alive old
    have hcall : (Op.call c).call?.toList = [c] := rfl
    rw [hcall, lastCall?_singleton, perform, attribute?_receive halive]
    split <;> rfl
  | setState m s =>
    exact (Spares.update n m p (f := fun node => { node with state := s })
      fun _ => rfl).attribute?_eq a
  | setSupported m s =>
    exact (Spares.update n m p (f := fun node => { node with supported := s })
      fun _ => rfl).attribute?_eq a
  | takeJournal => rfl

/-! ## What a run does to a node -/

theorem not_mem_play_cons {answer : Answer} (h : answer ∉ (p.play (op :: ops)).1) :
    (op.perform p).1 ≠ answer ∧ answer ∉ ((op.perform p).2.play ops).1 := by
  have hcons : answer ∉ (op.perform p).1 :: ((op.perform p).2.play ops).1 := h
  rw [List.mem_cons, not_or] at hcons
  exact ⟨Ne.symm hcons.1, hcons.2⟩

/-- A node that is alive after some operations and was made by none of them was alive before. -/
theorem isAlive_of_play (alive : (p.play ops).2.isAlive n = true)
    (old : .created n ∉ (p.play ops).1) : p.isAlive n = true := by
  induction ops generalizing p with
  | nil => exact alive
  | cons op ops ih =>
    rcases not_mem_play_cons old with ⟨hop, hops⟩
    exact Op.isAlive_of_perform (ih alive hops) hop

/-- Of a node that is alive after some operations and was made by none of them, an attribute shows
what the last call about it says, and without one what it did before. -/
theorem attribute?_play (alive : (p.play ops).2.isAlive n = true)
    (old : .created n ∉ (p.play ops).1) (a : Attribute) :
    (p.play ops).2.attribute? n a =
      (lastCall? n a (ops.filterMap Op.call?)).elim (p.attribute? n a) Call.args? := by
  induction ops generalizing p with
  | nil => rfl
  | cons op ops ih =>
    rcases not_mem_play_cons old with ⟨hop, hops⟩
    have hrest : (p.play (op :: ops)).2.attribute? n a =
        (lastCall? n a (ops.filterMap Op.call?)).elim ((op.perform p).2.attribute? n a)
          Call.args? := ih alive hops
    rw [hrest, Op.attribute?_perform (isAlive_of_play alive hops) hop, Op.filterMap_call?_cons,
      lastCall?_append]
    cases lastCall? n a (ops.filterMap Op.call?) <;> rfl

/-- A node is made between some operations, and in no later one. -/
structure MadeLast (p : Headless) (n : NodeHandle) (before after : List Op) : Prop where
  made : (p.play before).2.createNode.1 = n
  last : .created n ∉ ((p.play before).2.createNode.2.play after).1

/-- In a run that makes a node there is a last time that it does. -/
theorem exists_madeLast (h : .created n ∈ (p.play ops).1) :
    ∃ before after, ops = before ++ .create :: after ∧ MadeLast p n before after := by
  induction ops generalizing p with
  | nil => cases h
  | cons op ops ih =>
    by_cases hlater : .created n ∈ ((op.perform p).2.play ops).1
    · rcases ih hlater with ⟨before, after, rfl, hmade⟩
      exact ⟨op :: before, after, rfl, ⟨hmade.made, hmade.last⟩⟩
    · -- it was this operation
      have hop : .created n = (op.perform p).1 := (List.mem_cons.1 h).resolve_right hlater
      cases op with
      | create =>
        cases hop
        exact ⟨[], ops, rfl, ⟨rfl, hlater⟩⟩
      | remove m => cases hop
      | call c => cases hop
      | setState m s => cases hop
      | setSupported m s => cases hop
      | takeJournal => cases hop

/-- A node shows of an attribute what the last call about it says, of the calls received after it
was made. -/
theorem MadeLast.attribute?_eq {before after : List Op} (h : MadeLast p n before after)
    (alive : (p.play (before ++ .create :: after)).2.isAlive n = true) (a : Attribute) :
    (p.play (before ++ .create :: after)).2.attribute? n a =
      (lastCall? n a (after.filterMap Op.call?)).bind Call.args? := by
  have hend : (p.play (before ++ .create :: after)).2 =
      ((p.play before).2.createNode.2.play after).2 := by
    rw [play_append]
    rfl
  have hfresh : (p.play before).2.createNode.2.attribute? n a = none := by
    rw [attribute?, node?_createNode, if_pos h.made.symm]
    exact AttributeMap.get?_emptyCollection a
  rw [hend] at alive ⊢
  rw [attribute?_play alive h.last, hfresh]
  cases lastCall? n a (after.filterMap Op.call?) <;> rfl

theorem mem_attributes {a : Attribute} : a ∈ p.attributes n ↔ ∃ xs, p.attribute? n a = some xs := by
  unfold attributes attribute?
  cases p.node? n with
  | none => simp
  | some node => exact AttributeMap.mem_keys.trans AttributeMap.contains_iff

theorem sorted_attributes (p : Headless) (n : NodeHandle) : (p.attributes n).Pairwise (· < ·) := by
  unfold attributes
  cases p.node? n with
  | none => exact .nil
  | some node => exact node.attributes.sorted_keys

/-- After any use of a new peer, the journals that were taken out and the one that is left hold
every call, once and in order. Every live node was made for a last time, and shows of each attribute
what the last call about it says of those received since: the arguments of a write, and nothing
otherwise. An operation on any other node fails, and nothing is changed, but that a call is kept. -/
theorem replay (ops : List Op) :
    let answers := (({} : Headless).play ops).1
    let p := (({} : Headless).play ops).2
    received answers p = ops.filterMap Op.call? ∧
    (∀ n, p.isAlive n = true →
      (∃ before after, ops = before ++ .create :: after ∧ MadeLast {} n before after) ∧
      ∀ before after, ops = before ++ .create :: after → MadeLast {} n before after →
        ∃ later,
          received answers p =
            received (({} : Headless).play before).1 (({} : Headless).play before).2 ++ later ∧
          (∀ a xs, p.attribute? n a = some xs ↔ lastCall? n a later = some (.apply n a xs)) ∧
          (∀ a, a ∈ p.attributes n ↔ ∃ xs, lastCall? n a later = some (.apply n a xs)) ∧
          (p.attributes n).Pairwise (· < ·)) ∧
    ∀ (op : Op) n, op.subject? = some n → p.isAlive n = false →
      op.perform p = (.ended (.error (.unknownNode n)),
        { p with journal := p.journal ++ op.call?.toList }) := by
  intro answers p
  have hreceived : ∀ ops : List Op,
      received (({} : Headless).play ops).1 (({} : Headless).play ops).2 =
        ops.filterMap Op.call? := received_play {}
  refine ⟨hreceived ops, ?_, fun op n => Op.perform_of_dead⟩
  intro n alive
  constructor
  · apply exists_madeLast
    by_contra old
    cases isAlive_of_play alive old
  · rintro before after rfl hmade
    have hattribute : ∀ a xs, p.attribute? n a = some xs ↔
        lastCall? n a (after.filterMap Op.call?) = some (.apply n a xs) := by
      intro a xs
      rw [hmade.attribute?_eq alive, lastCall?_bind_args?]
    refine ⟨after.filterMap Op.call?, ?_, hattribute, ?_, p.sorted_attributes n⟩
    · rw [hreceived, hreceived, List.filterMap_append]
      rfl
    · intro a
      rw [mem_attributes]
      exact exists_congr fun xs => hattribute a xs

/-- The width was written too early, the height was reset, and the journal was taken out before the
opacity was written: of the node only the opacity is left. A call about another node comes to
nothing. -/
theorem replay_written_before_made :
    let n : NodeHandle := ⟨1⟩
    let before : List Op := [.call (.apply n .width [.int 1])]
    let after : List Op := [.call (.apply n .height [.int 2]), .takeJournal,
      .call (.reset n .height), .call (.apply n .opacity [.int 3])]
    let p := (({} : Headless).play (before ++ .create :: after)).2
    p.isAlive n = true ∧ p.attribute? n .width = none ∧ p.attribute? n .height = none ∧
      p.attribute? n .opacity = some [.int 3] ∧
      (Op.call (.reset ⟨2⟩ .opacity)).perform p = (.ended (.error (.unknownNode ⟨2⟩)),
        { p with journal := p.journal ++ [.reset ⟨2⟩ .opacity] }) := by
  intro n before after p
  rcases replay (before ++ .create :: after) with ⟨hreceived, hlive, hdead⟩
  have alive : p.isAlive n = true := rfl
  have hmade : MadeLast {} n before after := ⟨rfl, by simp [after, play, Op.perform]⟩
  rcases (hlive n alive).2 before after rfl hmade with ⟨later, hlater, hattribute, -⟩
  have hcalls : [Call.apply n .width [.int 1]] ++ after.filterMap Op.call? =
      [.apply n .width [.int 1]] ++ later := hreceived.symm.trans hlater
  obtain rfl := List.append_cancel_left hcalls
  refine ⟨alive, ?_, ?_, (hattribute .opacity _).2 rfl, hdead _ _ rfl rfl⟩
  · rw [Option.eq_none_iff_forall_ne_some]
    intro xs h
    cases (hattribute .width xs).1 h
  · rw [Option.eq_none_iff_forall_ne_some]
    intro xs h
    cases (hattribute .height xs).1 h

end Reconciler.Headless
