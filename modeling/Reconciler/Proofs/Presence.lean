import Reconciler.Probe
import Reconciler.Proofs.Reachable
import Reconciler.Proofs.Rendered

/-!
# A table and its node list the same attributes

After a pass the attributes that a node renders are those that have a slot, and no others: nothing
is left behind on the node, and no slot stands for something that is not there. This holds whatever
kinds of slots are mixed, and whatever comparisons panic.

Between passes less is true. When a slot takes the place of one of another kind, the committed value
is forgotten while the node still renders it. `Held` is the invariant that allows for that: where
nothing is committed, a request waits, and whatever is rendered may be. Such a request is not
compared with anything, so the next pass brings it to the node, or resets the attribute, and what is
left is `Shown`.
-/

namespace Reconciler

/-! ## Catalogs of single calls, put together -/

instance {κ ι : Type} [Catalog κ] [Catalog ι] [DirectCatalog κ] [DirectCatalog ι] :
    DirectCatalog (κ ⊕ ι) where
  args
    | .inl k => DirectCatalog.args k
    | .inr k => DirectCatalog.args k
  apply_eq
    | .inl k => DirectCatalog.apply_eq k
    | .inr k => DirectCatalog.apply_eq k
  reset_eq
    | .inl k => DirectCatalog.reset_eq k
    | .inr k => DirectCatalog.reset_eq k

/-- Some of the kinds of a catalog. -/
instance {κ : Type} [Catalog κ] {P : κ → Prop} : Catalog {k : κ // P k} :=
  ⟨fun k => Catalog.Value k.1, fun k => Catalog.policy k.1⟩

/-- All probes but the one that may fail without a call make single calls. -/
instance : DirectCatalog {k : Probe // k ≠ .fallible} where
  args k v :=
    match (Catalog.policy k.1).apply default v with
    | .call (.apply _ _ xs) _ => xs
    | _ => []
  apply_eq := by
    rintro ⟨k, hk⟩ node v
    cases k with
    | fallible => exact absurd rfl hk
    | _ => rfl
  reset_eq := by
    rintro ⟨k, hk⟩ node
    cases k with
    | fallible => exact absurd rfl hk
    | _ => rfl

/-! ## Runs of a table on one node -/

variable {κ : Type} [Catalog κ]

namespace Table

/-- Runs of a new table against one node of a peer that nothing else touches. Requests of any kinds
are staged, also of several kinds for one attribute, and passes are made in between. -/
inductive Run [DecidableEq κ] {π : Type} [Peer π] (node : NodeHandle) (origin : π) :
    Table κ → π → Prop where
  -- The table is new.
  | start : Run node origin ∅ origin
  -- A request of some kind is staged.
  | stage {t : Table κ} {p : π} (run : Run node origin t p) (k : κ)
      (v : Option (Catalog.Value k)) : Run node origin (t.stage k v) p
  -- A pass is made.
  | commit {t : Table κ} {p : π} (run : Run node origin t p) :
      Run node origin (t.commit node p).2.1 (t.commit node p).2.2

theorem Run.reachable [DecidableEq κ] {π : Type} [Peer π] {node : NodeHandle} {origin p : π}
    {t : Table κ} (run : Run node origin t p) : t.Reachable := by
  induction run with
  | start => exact .empty
  | stage _ k v ih => exact .stage ih k v
  | @commit t p _ ih => exact .commit ih node p

end Table

/-! ## The slots and what is rendered -/

/-- What is rendered of an attribute between two passes, by the slot of the attribute. -/
inductive Held : Option (Entry κ) → Option (List WireValue) → Prop where
  -- There is no slot, and nothing is rendered.
  | absent : Held none none
  -- A value is committed, and something is rendered.
  | committed {k : κ} {staged : Option (Staged (Catalog.Value k))} {v : Catalog.Value k}
      {xs : List WireValue} : Held (some ⟨k, ⟨staged, some v⟩⟩) (some xs)
  -- A request waits over nothing. The slot is new, or it took the place of another.
  | pending {k : κ} {request : Staged (Catalog.Value k)} {x : Option (List WireValue)} :
      Held (some ⟨k, ⟨some request, none⟩⟩) x

/-- What is rendered of an attribute right after a pass, by the slot of the attribute. -/
inductive Shown : Option (Entry κ) → Option (List WireValue) → Prop where
  | absent : Shown none none
  | present {k : κ} {v : Catalog.Value k} {xs : List WireValue} :
      Shown (some ⟨k, ⟨none, some v⟩⟩) (some xs)

namespace Shown

variable {o : Option (Entry κ)} {x : Option (List WireValue)}

theorem held (h : Shown o x) : Held o x := by
  cases h with
  | absent => exact .absent
  | present => exact .committed

theorem isSome_eq (h : Shown o x) : o.isSome = x.isSome := by
  cases h <;> rfl

end Shown

namespace Held

variable {o : Option (Entry κ)} {e : Entry κ} {x : Option (List WireValue)}

/-- Staging keeps what is committed in a slot of the same kind, and starts anew in any other. -/
theorem restage [DecidableEq κ] (h : Held o x) (k : κ) (v : Option (Catalog.Value k)) :
    Held (some (Table.restage k v o)) x := by
  cases h with
  | absent => exact .pending
  | @committed l _ _ _ =>
    by_cases hkind : l = k
    · subst hkind
      simp only [Table.restage, Entry.stage_self]
      exact .committed
    · simp only [Table.restage, Entry.stage_of_ne (e := ⟨l, _⟩) hkind]
      exact .pending
  | @pending l _ _ =>
    by_cases hkind : l = k
    · subst hkind
      simp only [Table.restage, Entry.stage_self]
      exact .pending
    · simp only [Table.restage, Entry.stage_of_ne (e := ⟨l, _⟩) hkind]
      exact .pending

variable {k : κ} {c : Option (Catalog.Value k)}

/-- Where nothing waits, a value is committed and something is rendered. -/
theorem of_idle (h : Held (some ⟨k, ⟨none, c⟩⟩) x) : ∃ v xs, c = some v ∧ x = some xs := by
  cases h with
  | committed => exact ⟨_, _, rfl, rfl⟩

/-- Where a value is committed, something is rendered. -/
theorem of_committed {staged : Option (Staged (Catalog.Value k))} {v : Catalog.Value k}
    (h : Held (some ⟨k, ⟨staged, some v⟩⟩) x) : ∃ xs, x = some xs := by
  cases h with
  | committed => exact ⟨_, rfl⟩

variable [DirectCatalog κ] {node : NodeHandle} {p q : Headless} {s : Settlement κ}

/-- On a live node the commit of a slot leaves a slot that is rendered, or nothing of both. -/
theorem settles (h : Held (some e) ((p.rendered node).get? e.target))
    (alive : p.isAlive node = true) (hs : e.Settles node p s q) :
    Shown s.remains ((q.rendered node).get? e.target) := by
  have hreset : ∀ {k : κ} {o : Outcome PeerError Unit} {q : Headless},
      ((Catalog.policy k).reset node).run p = (o, q) →
      Shown (none : Option (Entry κ)) ((q.rendered node).get? (Catalog.policy k).target) := by
    intro k o q hrun
    have hnone : (q.rendered node).get? (Catalog.policy k).target = none :=
      (Headless.account node).read_run_reset hrun
    rw [hnone]
    exact .absent
  cases hs with
  | idle =>
    rcases h.of_idle with ⟨v, xs, rfl, hx⟩
    rw [hx]
    exact .present
  | expired hrun => exact hreset hrun
  | resetFailed hrun => exact hreset hrun
  | resetPanicked hrun => exact hreset hrun
  | @unchanged _ _ c _ judged =>
    -- it was compared, so a value is committed
    cases c with
    | none => cases judged
    | some w =>
      rcases h.of_committed with ⟨xs, hx⟩
      rw [hx]
      exact .present
  | @comparisonPanicked _ _ c _ _ judged =>
    cases c with
    | none => cases judged
    | some w =>
      rcases h.of_committed with ⟨xs, hx⟩
      rw [hx]
      exact .present
  | @applied k v _ _ _ _ hrun =>
    have hx : (q.rendered node).get? (Catalog.policy k).target = some (DirectCatalog.args k v) :=
      (Headless.account node).read_run_apply hrun
    rw [Entry.target, Entry.policy, hx]
    exact .present
  | applyFailed _ hrun => cases Headless.eq_ok_of_run_apply alive hrun
  | applyPanicked _ hrun => cases Headless.eq_ok_of_run_apply alive hrun

end Held

/-- The attributes that a node renders are the keys of what is rendered of it. -/
theorem Headless.attributes_eq (p : Headless) (node : NodeHandle) :
    p.attributes node = (p.rendered node).keys := by
  unfold attributes rendered
  cases p.node? node <;> rfl

namespace Table

variable [DirectCatalog κ] {node : NodeHandle} {t : Table κ} {p : Headless}

/-- A pass on a live node turns what is held into what is shown. -/
theorem shown_commit (keyed : t.Keyed) (alive : p.isAlive node = true)
    (h : ∀ a, Held (t.slots.get? a) ((p.rendered node).get? a)) (a : Attribute) :
    Shown ((t.commit node p).2.1.slots.get? a) (((t.commit node p).2.2.rendered node).get? a) ∧
      (t.commit node p).2.2.isAlive node = true := by
  -- a slot of another attribute is settled with calls about that attribute alone
  have keep : ∀ {a b : Attribute} {e : Entry κ} {p q : Headless} {s : Settlement κ}, a ≠ b →
      e.target = b → e.Settles node p s q →
      (q.rendered node).get? a = (p.rendered node).get? a := by
    intro a b e p q s hab htarget hs
    exact (Headless.account node).read_settles hs fun h => hab (h.symm.trans htarget)
  refine commit_rule
    (P := fun a o (p : Headless) => Held o ((p.rendered node).get? a) ∧ p.isAlive node = true ∧
      ∀ e, o = some e → e.target = a)
    (Q := fun a o (p : Headless) => Shown o ((p.rendered node).get? a) ∧ p.isAlive node = true)
    ?_ ?_ ?_ ?_ (fun a => ⟨h a, alive, keyed a⟩) a
  · intro a p hP
    refine ⟨?_, hP.2.1⟩
    have hheld := hP.1
    generalize (p.rendered node).get? a = x at hheld
    cases hheld
    exact .absent
  · intro a e p s q hP hs
    rcases hP with ⟨hheld, halive, htarget⟩
    obtain rfl := htarget e rfl
    exact ⟨hheld.settles halive hs, (Headless.isAlive_settles hs).trans halive⟩
  · intro a b o e p s q hab hP hb hs
    rw [keep hab (hb.2.2 e rfl) hs, Headless.isAlive_settles hs]
    exact hP
  · intro a b o e p s q hab hQ hb hs
    rw [keep hab (hb.2.2 e rfl) hs, Headless.isAlive_settles hs]
    exact hQ

namespace Run

variable [DecidableEq κ] {origin : Headless}

/-- At every point of a run on a live node without attributes, what is rendered is held. -/
theorem held (alive : origin.isAlive node = true) (empty : origin.attributes node = [])
    (run : Run node origin t p) :
    (∀ a, Held (t.slots.get? a) ((p.rendered node).get? a)) ∧ p.isAlive node = true := by
  induction run with
  | start =>
    refine ⟨?_, alive⟩
    intro a
    have hnone : (origin.rendered node).get? a = none := by
      rw [Headless.attributes_eq] at empty
      have hkey : a ∉ (origin.rendered node).keys := by simp [empty]
      rw [AttributeMap.mem_keys] at hkey
      simpa [AttributeMap.contains] using hkey
    rw [get?_empty, hnone]
    exact .absent
  | stage _ k v ih =>
    refine ⟨?_, ih.2⟩
    intro a
    rw [get?_stage]
    split
    · exact (ih.1 a).restage k v
    · exact ih.1 a
  | commit run ih =>
    have hshown := shown_commit run.reachable.keyed ih.2 ih.1
    exact ⟨fun a => (hshown a).1.held, (hshown .width).2⟩

/-- No attribute is leaked and none is a phantom: right after every pass of a run on a live node
that had no attributes, an attribute has a slot exactly if the node renders it, and the node lists
the attributes of the table in the order of the table. -/
theorem attributes_commit_eq (alive : origin.isAlive node = true)
    (empty : origin.attributes node = []) (run : Run node origin t p) :
    (∀ a, (t.commit node p).2.1.contains a = true ↔
      ∃ xs, (t.commit node p).2.2.attribute? node a = some xs) ∧
    (t.commit node p).2.2.attributes node = (t.commit node p).2.1.attributes := by
  have hheld := run.held alive empty
  have hcontains : ∀ a, (t.commit node p).2.1.contains a =
      (((t.commit node p).2.2.rendered node).get? a).isSome :=
    fun a => (shown_commit run.reachable.keyed hheld.2 hheld.1 a).1.isSome_eq
  constructor
  · intro a
    rw [hcontains, Headless.get?_rendered, Option.isSome_iff_exists]
  · rw [Headless.attributes_eq]
    apply List.filter_congr
    intro a _
    exact (hcontains a).symm

/-- A color is rendered. A number takes the place of its slot, and its default is asked for before
it was ever applied. The color is gone after the pass, and a number whose comparison panicked is
still there. -/
theorem attributes_commit_eq_replaced_color :
    let p := ({} : Headless).createNode
    let panicky : {k : Probe // k ≠ .fallible} := ⟨.panicky, by decide⟩
    let t := ((∅ : Table {k : Probe // k ≠ .fallible}).stage ⟨.tint, by decide⟩
      (some (Color.argb 3))).stage panicky (some (0 : Nat))
    let before := t.commit p.1 p.2
    let u := (before.2.1.stage ⟨.conflict, by decide⟩ none).stage panicky (some (1 : Nat))
    let after := u.commit p.1 before.2.2
    before.2.2.attributes p.1 = [.backgroundColor, .opacity] ∧
      after.2.1.attributes = [.opacity] ∧ after.2.2.attributes p.1 = [.opacity] := by
  intro p panicky t before u after
  have alive : p.2.isAlive p.1 = true := rfl
  have empty : p.2.attributes p.1 = [] := rfl
  have hcolor : before.2.1.attributes = [.backgroundColor, .opacity] := by decide +kernel
  have hgone : after.2.1.attributes = [.opacity] := by decide +kernel
  have first : Run p.1 p.2 t p.2 := .stage (.stage .start _ _) _ _
  have hbefore : before.2.2.attributes p.1 = [.backgroundColor, .opacity] :=
    (attributes_commit_eq alive empty first).2.trans hcolor
  have middle : Run p.1 p.2 before.2.1 before.2.2 := .commit first
  -- from here on the first pass need not be computed again
  clear_value before
  have second : Run p.1 p.2 u before.2.2 :=
    .stage (.stage middle ⟨.conflict, by decide⟩ none) panicky (some (1 : Nat))
  have hafter := (attributes_commit_eq alive empty second).2
  exact ⟨hbefore, hgone, hafter.trans hgone⟩

end Run

end Table

end Reconciler
