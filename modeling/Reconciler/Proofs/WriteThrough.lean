import Reconciler.Proofs.Rendered

/-!
# Commits are as good as writing at once

A component keeps requests back, drops all but the last one for each attribute, keeps values to
itself that it finds unchanged, and forgets slots. Still, after a commit its node shows what it
would show if every request had been written when it was made (`Headless.writeAll`), up to values
that the comparison of their attribute cannot tell apart.

* `Wanted` holds a slot against the last request for its attribute. It is an invariant of all runs
  on a live node, and a pass turns it into `Met`.
* `Backed` holds the slot against what is rendered. So a request that is met is rendered.
-/

namespace Reconciler

/-! ## Writing at once -/

/-- The call that brings an edit to a node. -/
def Edit.call (n : NodeHandle) (e : Edit) : Call :=
  match e.value? with
  | some v => .apply n e.target (Standard.args e.target v)
  | none => .reset n e.target

/-- Brings edits to a node one after the other, as they are made. -/
def Headless.writeAll (n : NodeHandle) (es : List Edit) (p : Headless) : Headless :=
  es.foldl (fun p e => (p.receive (e.call n)).2) p

namespace Headless

/-- An edit written at once is all that is rendered of its attribute. -/
theorem attribute?_receive_call {n : NodeHandle} {p : Headless} (alive : p.isAlive n = true)
    (e : Edit) (a : Attribute) :
    (p.receive (e.call n)).2.attribute? n a =
      match e.request? a with
      | none => p.attribute? n a
      | some r => r.map (Standard.args a) := by
  have hnode : (e.call n).node = n := by
    unfold Edit.call
    cases e.value? <;> rfl
  rcases Option.isSome_iff_exists.1 alive with ⟨node, hp⟩
  unfold attribute?
  rw [node?_receive, hnode, if_pos rfl, hp]
  unfold Edit.call
  by_cases ha : e.target = a
  · subst ha
    rw [Edit.request?_self]
    cases e.value? <;> simp [render, AttributeMap.get?_insert, AttributeMap.get?_erase]
  · rw [Edit.request?_of_ne ha]
    cases e.value? <;> simp [render, AttributeMap.get?_insert, AttributeMap.get?_erase, ha]

/-- Edits written at once leave the last request for each attribute. -/
theorem attribute?_writeAll {n : NodeHandle} (es : List Edit) {p : Headless}
    (alive : p.isAlive n = true) (a : Attribute) :
    (p.writeAll n es).attribute? n a =
      match Edit.lastRequest? a es with
      | none => p.attribute? n a
      | some r => r.map (Standard.args a) := by
  induction es generalizing p with
  | nil => rfl
  | cons e es ih =>
    have hrest : ((p.receive (e.call n)).2.writeAll n es).attribute? n a = _ :=
      ih (by rw [isAlive_receive, alive])
    rw [attribute?_receive_call alive] at hrest
    rw [Edit.lastRequest?_cons]
    cases hes : Edit.lastRequest? a es <;> rw [hes] at hrest <;> exact hrest

end Headless

/-! ## Requests that are met -/

/-- The last request for an attribute is met: nothing was asked for and there is no slot, or a value
and it is committed, or the default and the slot is gone. -/
inductive Met (a : Attribute) :
    Option (Entry Standard.Kind) → Option (Option (Standard.Value a)) → Prop where
  | untouched : Met a none none
  | reached {v : Standard.Value a} :
      Met a (some ⟨Standard.setKind a, ⟨none, some v⟩⟩) (some (some v))
  | gone : Met a none (some none)

/-- The last request for an attribute is met, or it waits. -/
inductive Wanted (a : Attribute) :
    Option (Entry Standard.Kind) → Option (Option (Standard.Value a)) → Prop where
  | met {o : Option (Entry Standard.Kind)} {r : Option (Option (Standard.Value a))}
      (h : Met a o r) : Wanted a o r
  | waiting {r c : Option (Standard.Value a)} :
      Wanted a (some ⟨Standard.setKind a, ⟨some (.ofOption r), c⟩⟩) (some r)

namespace Wanted

variable {a : Attribute} {o : Option (Entry Standard.Kind)} {e : Entry Standard.Kind}
  {r : Option (Option (Standard.Value a))}

/-- The request that is made last waits. -/
theorem restage (h : Wanted a o r) (v : Option (Standard.Value a)) :
    Wanted a (some (Table.restage (Standard.setKind a) v o)) (some v) := by
  cases h with
  | met h =>
    cases h with
    | untouched => exact .waiting
    | gone => exact .waiting
    | reached =>
      simp only [Table.restage, Entry.stage_self]
      exact .waiting
  | waiting =>
    simp only [Table.restage, Entry.stage_self]
    exact .waiting

/-- Without a slot no request waits. -/
theorem of_none (h : Wanted a none r) : Met a none r := by
  cases h with
  | met h => exact h

/-- A slot that meets its request meets the last one. -/
theorem met? (h : Wanted a (some e) r) : Met a e.met? r := by
  cases h with
  | met h =>
    cases h with
    | reached => exact .reached
  | @waiting v c =>
    cases v with
    | none => exact .gone
    | some v => exact .reached

end Wanted

/-- A request that is met is rendered, up to values that cannot be told apart. -/
theorem Met.rendered {a : Attribute} {o : Option (Entry Standard.Kind)}
    {r : Option (Option (Standard.Value a))} {x : Option (List WireValue)} (h : Met a o r)
    (hb : Backed a o x) :
    (x = none ↔ r = none ∨ r = some none) ∧
      ∀ v, r = some (some v) → ∃ w, x = some (Standard.args a w) ∧ Standard.Indistinct a v w := by
  cases h with
  | untouched =>
    cases hb
    simp
  | gone =>
    cases hb
    simp
  | reached =>
    cases hb with
    | kept hvw =>
      constructor
      · simp
      · intro v hv
        cases hv
        exact ⟨_, rfl, hvw⟩

namespace Component

/-- A pass on a live node meets every last request. -/
theorem met_commit {c : Component} {p : Headless} (alive : p.isAlive c.node = true)
    {r : (a : Attribute) → Option (Option (Standard.Value a))}
    (h : ∀ a, Wanted a (c.slots.slots.get? a) (r a)) (a : Attribute) :
    Met a ((c.commit p).2.1.slots.slots.get? a) (r a) ∧ (c.commit p).2.2.isAlive c.node = true := by
  refine Table.commit_rule
    (P := fun a o (p : Headless) => Wanted a o (r a) ∧ p.isAlive c.node = true)
    (Q := fun a o (p : Headless) => Met a o (r a) ∧ p.isAlive c.node = true) ?_ ?_ ?_ ?_
    (fun a => ⟨h a, alive⟩) a
  · intro a p hP
    exact ⟨hP.1.of_none, hP.2⟩
  · -- the node takes the call, so the slot does not fail
    intro a e p s q hP hs
    have hok : s.error? = none := by
      apply hs.error?_eq_none
      · intro call hcall
        rw [Headless.fst_send_eq_ok_iff, hcall]
        exact hP.2
      · exact e.kind.verdict_ne_panicked
    constructor
    · rw [hs.remains_of_ok hok]
      exact hP.1.met?
    · rw [Headless.isAlive_settles hs]
      exact hP.2
  · intro a b o e p s q _ hP _ hs
    exact ⟨hP.1, (Headless.isAlive_settles hs).trans hP.2⟩
  · intro a b o e p s q _ hQ _ hs
    exact ⟨hQ.1, (Headless.isAlive_settles hs).trans hQ.2⟩

namespace Run

variable {n : NodeHandle} {p q : Headless} {es : List Edit} {c : Component}

/-- On a live node every last request is met or waits. -/
theorem wanted (alive : p.isAlive n = true) (run : Run (Headless.Spares n) n p es c q) :
    (∀ a, Wanted a (c.slots.slots.get? a) (Edit.lastRequest? a es)) ∧ q.isAlive n = true := by
  induction run with
  | start =>
    refine ⟨?_, alive⟩
    intro a
    rw [Table.get?_empty]
    exact .met .untouched
  | edit e _ ih =>
    refine ⟨?_, ih.2⟩
    intro a
    rw [get?_edit, Edit.lastRequest?_append, Edit.lastRequest?_cons, Edit.lastRequest?_nil]
    cases e.request? a with
    | none => exact ih.1 a
    | some v => exact (ih.1 a).restage v
  | commit run ih =>
    obtain rfl := run.node_eq
    have hmet := met_commit ih.2 ih.1
    exact ⟨fun a => .met (hmet a).1, (hmet .width).2⟩
  | outside _ h ih => exact ⟨ih.1, h.isAlive_eq.trans ih.2⟩

/-- Write-through: right after any commit in any run on a live node that is empty at first and left
alone by others, an attribute is absent exactly if it was never asked for or its default was asked
for last, and otherwise it is the arguments of the value that was asked for last, or of one that
cannot be told from it. Had every request been written at once, it would be the arguments of that
value itself. -/
theorem commit_writes_through (alive : p.isAlive n = true) (empty : ∀ a, p.attribute? n a = none)
    (run : Run (Headless.Spares n) n p es c q) (a : Attribute) :
    ((c.commit q).2.2.attribute? n a = none ↔
        Edit.lastRequest? a es = none ∨ Edit.lastRequest? a es = some none) ∧
      (∀ v, Edit.lastRequest? a es = some (some v) →
        ∃ w, (c.commit q).2.2.attribute? n a = some (Standard.args a w) ∧
          Standard.Indistinct a v w) ∧
      (p.writeAll n es).attribute? n a = (Edit.lastRequest? a es).join.map (Standard.args a) := by
  have hempty : p.rendered n = ∅ := by
    apply AttributeMap.ext
    intro a
    rw [Headless.get?_rendered, empty, AttributeMap.get?_emptyCollection]
  have hbacked := run.commit.backed (Headless.account n) hempty
    (fun _ _ h => h.rendered_eq) a
  have hmet : Met a ((c.commit q).2.1.slots.slots.get? a) (Edit.lastRequest? a es) := by
    have hwanted := run.wanted alive
    obtain rfl := run.node_eq
    exact (met_commit hwanted.2 hwanted.1 a).1
  have hrendered := hmet.rendered hbacked
  have hread : ((Headless.account n).read (c.commit q).2.2).get? a =
      (c.commit q).2.2.attribute? n a := Headless.get?_rendered n _ a
  rw [hread] at hrendered
  refine ⟨hrendered.1, hrendered.2, ?_⟩
  rw [Headless.attribute?_writeAll es alive, empty]
  cases Edit.lastRequest? a es <;> rfl

/-- A width is set and brought to the node, while another node is made, and it is gone after it is
unset and committed again. -/
theorem commit_writes_through_unset_width :
    let p := ({} : Headless).createNode
    let q := p.2.createNode.2
    let c := (Component.mk p.1 ∅).set .width (.vp 1)
    let d := (c.commit q).2.1.unset .width
    (c.commit q).2.2.attribute? p.1 .width ≠ none ∧
      (d.commit (c.commit q).2.2).2.2.attribute? p.1 .width = none := by
  intro p q c d
  have alive : p.2.isAlive p.1 = true := rfl
  have empty : ∀ a, p.2.attribute? p.1 a = none := fun a => AttributeMap.get?_emptyCollection a
  have hset : Run (Headless.Spares p.1) p.1 p.2 [.set .width (.vp 1)] c q :=
    .outside (.edit _ .start) (.of_node?_eq rfl)
  have hunset : Run (Headless.Spares p.1) p.1 p.2 [.set .width (.vp 1), .unset .width] d
      (c.commit q).2.2 := .edit (.unset .width) (.commit hset)
  constructor
  · intro h
    rcases (commit_writes_through alive empty hset .width).1.1 h with h | h <;> cases h
  · exact (commit_writes_through alive empty hunset .width).1.2 (.inr rfl)

end Run

end Component

end Reconciler
