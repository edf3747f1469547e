import Reconciler.Standard
import Reconciler.Table.Commit

/-!
# What a pass does, slot by slot

`Entry.Settles` lists the ways in which the commit of one slot ends, with what they leave of the
slot and of the peer, and `Entry.settles_commit` says that there are no others. Whatever is claimed
of one commit is shown by cases on it.

`Table.commit_rule` lifts such facts to a pass. To show `Q` of every attribute after a pass, one
gives a `P` that holds of every attribute before it, and shows that settling a slot turns `P` of its
own attribute into `Q`, and keeps `P` and `Q` of all others. The order of the slots, the slots
settled before and the state of the peer in between are then of no account.
-/

namespace Reconciler

variable {κ π : Type} [Catalog κ] [Peer π]

/-- The slot that a settlement leaves in the table, if it leaves one. -/
def Settlement.remains (s : Settlement κ) : Option (Entry κ) :=
  if s.drops then none else some s.entry

namespace Entry

/-- The ways in which the commit of a slot ends: the slot and the peer before, the settlement, and
the peer afterwards. -/
inductive Settles (node : NodeHandle) : Entry κ → π → Settlement κ → π → Prop where
  -- Nothing waits.
  | idle {k : κ} {c : Option (Catalog.Value k)} {p : π} :
      Settles node ⟨k, ⟨none, c⟩⟩ p ⟨.ok .idle, ⟨k, ⟨none, c⟩⟩⟩ p
  -- The default is asked for, and the attribute is reset.
  | expired {k : κ} {c : Option (Catalog.Value k)} {p q : π}
      (h : ((Catalog.policy k).reset node).run p = (.ok (), q)) :
      Settles node ⟨k, ⟨some .unset, c⟩⟩ p ⟨.ok .expired, ⟨k, {}⟩⟩ q
  -- The default is asked for, and the peer fails to reset the attribute.
  | resetFailed {k : κ} {c : Option (Catalog.Value k)} {p q : π} {err : PeerError}
      (h : ((Catalog.policy k).reset node).run p = (.error err, q)) :
      Settles node ⟨k, ⟨some .unset, c⟩⟩ p
        ⟨.error (.reset (Catalog.policy k).target err), ⟨k, {}⟩⟩ q
  -- The default is asked for, and the peer panics.
  | resetPanicked {k : κ} {c : Option (Catalog.Value k)} {p q : π} {panic : Panic}
      (h : ((Catalog.policy k).reset node).run p = (.panicked panic, q)) :
      Settles node ⟨k, ⟨some .unset, c⟩⟩ p
        ⟨.error (.ofPanic (Catalog.policy k).target panic), ⟨k, {}⟩⟩ q
  -- The value is judged unchanged. It is committed without a call.
  | unchanged {k : κ} {v : Catalog.Value k} {c : Option (Catalog.Value k)} {p : π}
      (judged : (Catalog.policy k).verdict v c = .unchanged) :
      Settles node ⟨k, ⟨some (.value v), c⟩⟩ p ⟨.ok .unchanged, ⟨k, ⟨none, some v⟩⟩⟩ p
  -- The comparison panics.
  | comparisonPanicked {k : κ} {v : Catalog.Value k} {c : Option (Catalog.Value k)} {p : π}
      {panic : Panic} (judged : (Catalog.policy k).verdict v c = .panicked panic) :
      Settles node ⟨k, ⟨some (.value v), c⟩⟩ p
        ⟨.error (.ofPanic (Catalog.policy k).target panic), ⟨k, ⟨none, c⟩⟩⟩ p
  -- The value is judged changed, and brought to the peer.
  | applied {k : κ} {v : Catalog.Value k} {c : Option (Catalog.Value k)} {p q : π}
      (judged : (Catalog.policy k).verdict v c = .changed)
      (h : ((Catalog.policy k).apply node v).run p = (.ok (), q)) :
      Settles node ⟨k, ⟨some (.value v), c⟩⟩ p ⟨.ok .applied, ⟨k, ⟨none, some v⟩⟩⟩ q
  -- The value is judged changed, and the peer fails to take it.
  | applyFailed {k : κ} {v : Catalog.Value k} {c : Option (Catalog.Value k)} {p q : π}
      {err : PeerError} (judged : (Catalog.policy k).verdict v c = .changed)
      (h : ((Catalog.policy k).apply node v).run p = (.error err, q)) :
      Settles node ⟨k, ⟨some (.value v), c⟩⟩ p
        ⟨.error (.apply (Catalog.policy k).target err), ⟨k, ⟨none, c⟩⟩⟩ q
  -- The value is judged changed, and the peer panics.
  | applyPanicked {k : κ} {v : Catalog.Value k} {c : Option (Catalog.Value k)} {p q : π}
      {panic : Panic} (judged : (Catalog.policy k).verdict v c = .changed)
      (h : ((Catalog.policy k).apply node v).run p = (.panicked panic, q)) :
      Settles node ⟨k, ⟨some (.value v), c⟩⟩ p
        ⟨.error (.ofPanic (Catalog.policy k).target panic), ⟨k, ⟨none, c⟩⟩⟩ q

/-- The commit of a slot ends in one of these ways. -/
theorem settles_commit (node : NodeHandle) (e : Entry κ) (p : π) :
    e.Settles node p (e.commit node p).1 (e.commit node p).2 := by
  rcases e with ⟨k, ⟨staged, c⟩⟩
  rcases staged with _ | v | _
  · exact .idle
  · -- a value: first the verdict decides, and on a change the peer
    rcases judged : (Catalog.policy k).verdict v c with _ | _ | panic
    · simpa only [Entry.commit, Slot.commit, policy, judged] using .unchanged judged
    · rcases h : ((Catalog.policy k).apply node v).run p with ⟨_ | err | panic, q⟩
      · simpa only [Entry.commit, Slot.commit, policy, judged, h] using .applied judged h
      · simpa only [Entry.commit, Slot.commit, policy, judged, h] using .applyFailed judged h
      · simpa only [Entry.commit, Slot.commit, policy, judged, h] using .applyPanicked judged h
    · simpa only [Entry.commit, Slot.commit, policy, judged] using .comparisonPanicked judged
  · rcases h : ((Catalog.policy k).reset node).run p with ⟨_ | err | panic, q⟩
    · simpa only [Entry.commit, Slot.commit, policy, h] using .expired h
    · simpa only [Entry.commit, Slot.commit, policy, h] using .resetFailed h
    · simpa only [Entry.commit, Slot.commit, policy, h] using .resetPanicked h

/-- A slot counts as unchanged only if a value waits in it that was judged unchanged against the
committed one. -/
theorem Settles.of_isUnchanged {node : NodeHandle} {k : κ} {slot : Slot (Catalog.Value k)} {p q : π}
    {s : Settlement κ} (hs : (Entry.mk k slot).Settles node p s q) (h : s.isUnchanged = true) :
    ∃ v w, slot = ⟨some (.value v), some w⟩ ∧ (Catalog.policy k).judge v w = .unchanged := by
  cases hs with
  | @unchanged _ v c _ judged =>
    cases c with
    | none => cases judged
    | some w => exact ⟨v, w, rfl, judged⟩
  | idle => cases h
  | expired => cases h
  | resetFailed => cases h
  | resetPanicked => cases h
  | comparisonPanicked => cases h
  | applied => cases h
  | applyFailed => cases h
  | applyPanicked => cases h

/-- The slot that is left when its request is met, if one is left. -/
def met? : Entry κ → Option (Entry κ)
  | ⟨k, ⟨none, c⟩⟩ => some ⟨k, ⟨none, c⟩⟩
  | ⟨k, ⟨some (.value v), _⟩⟩ => some ⟨k, ⟨none, some v⟩⟩
  | ⟨_, ⟨some .unset, _⟩⟩ => none

/-- A commit that does not fail meets the request. -/
theorem Settles.remains_of_ok {node : NodeHandle} {e : Entry κ} {p q : π} {s : Settlement κ}
    (hs : e.Settles node p s q) (h : s.error? = none) : s.remains = e.met? := by
  cases hs with
  | idle => rfl
  | expired => rfl
  | unchanged => rfl
  | applied => rfl
  | resetFailed => cases h
  | resetPanicked => cases h
  | comparisonPanicked => cases h
  | applyFailed => cases h
  | applyPanicked => cases h

end Entry

/-! ## Catalogs of single calls -/

/-- Catalogs whose kinds bring a value to the peer in one call, which writes their own attribute,
and the default in another, which resets it. -/
class DirectCatalog (κ : Type) [Catalog κ] where
  /-- The arguments that stand for a value. -/
  args : (k : κ) → Catalog.Value k → List WireValue
  apply_eq (k : κ) (node : NodeHandle) (v : Catalog.Value k) :
    (Catalog.policy k).apply node v = .single (.apply node (Catalog.policy k).target (args k v))
  reset_eq (k : κ) (node : NodeHandle) :
    (Catalog.policy k).reset node = .single (.reset node (Catalog.policy k).target)

instance : DirectCatalog Standard.Kind where
  args := Standard.Kind.args
  apply_eq k _ _ := by cases k <;> rfl
  reset_eq k _ := by cases k <;> rfl

/-- The comparisons of the standard catalog always come to an end. -/
theorem Standard.Kind.verdict_ne_panicked (k : Standard.Kind) (v : Catalog.Value k)
    (c : Option (Catalog.Value k)) (panic : Panic) :
    (Catalog.policy k).verdict v c ≠ .panicked panic := by
  cases c with
  | none => exact Verdict.noConfusion
  | some w =>
    rw [Policy.verdict, k.judge_policy]
    cases k.unchanged v w <;> exact Verdict.noConfusion

section Direct

variable [DirectCatalog κ]

theorem run_apply (k : κ) (node : NodeHandle) (v : Catalog.Value k) (p : π) :
    ((Catalog.policy k).apply node v).run p =
      Peer.send (.apply node (Catalog.policy k).target (DirectCatalog.args k v)) p := by
  rw [DirectCatalog.apply_eq, Script.run_single]

theorem run_reset (k : κ) (node : NodeHandle) (p : π) :
    ((Catalog.policy k).reset node).run p =
      Peer.send (.reset node (Catalog.policy k).target) p := by
  rw [DirectCatalog.reset_eq, Script.run_single]

/-- The commit of a slot makes one call about its node and its own attribute, or none at all. -/
theorem Entry.Settles.call {node : NodeHandle} {e : Entry κ} {p q : π} {s : Settlement κ}
    (hs : e.Settles node p s q) :
    q = p ∨ ∃ c : Call, c.node = node ∧ c.target = e.target ∧ q = (Peer.send c p).2 := by
  have hreset : ∀ {k : κ} {o : Outcome PeerError Unit} {q : π},
      ((Catalog.policy k).reset node).run p = (o, q) →
      ∃ c : Call, c.node = node ∧ c.target = (Catalog.policy k).target ∧ q = (Peer.send c p).2 := by
    intro k o q h
    rw [run_reset] at h
    refine ⟨.reset node (Catalog.policy k).target, rfl, rfl, ?_⟩
    rw [h]
  have happly : ∀ {k : κ} {v : Catalog.Value k} {o : Outcome PeerError Unit} {q : π},
      ((Catalog.policy k).apply node v).run p = (o, q) →
      ∃ c : Call, c.node = node ∧ c.target = (Catalog.policy k).target ∧ q = (Peer.send c p).2 := by
    intro k v o q h
    rw [run_apply] at h
    refine ⟨.apply node (Catalog.policy k).target (DirectCatalog.args k v), rfl, rfl, ?_⟩
    rw [h]
  cases hs with
  | idle => exact .inl rfl
  | unchanged => exact .inl rfl
  | comparisonPanicked => exact .inl rfl
  | expired h => exact .inr (hreset h)
  | resetFailed h => exact .inr (hreset h)
  | resetPanicked h => exact .inr (hreset h)
  | applied _ h => exact .inr (happly h)
  | applyFailed _ h => exact .inr (happly h)
  | applyPanicked _ h => exact .inr (happly h)

/-- A commit does not fail when every call about the node succeeds, and the comparison always
ends. -/
theorem Entry.Settles.error?_eq_none {node : NodeHandle} {e : Entry κ} {p q : π} {s : Settlement κ}
    (hs : e.Settles node p s q)
    (answers : ∀ c : Call, c.node = node → (Peer.send c p).1 = .ok ())
    (calm : ∀ v c panic, e.policy.verdict v c ≠ .panicked panic) : s.error? = none := by
  have hreset : ∀ {k : κ} {o : Outcome PeerError Unit} {q : π},
      ((Catalog.policy k).reset node).run p = (o, q) → o = .ok () := by
    intro k o q h
    rw [run_reset] at h
    have hok := answers (.reset node (Catalog.policy k).target) rfl
    rwa [h] at hok
  have happly : ∀ {k : κ} {v : Catalog.Value k} {o : Outcome PeerError Unit} {q : π},
      ((Catalog.policy k).apply node v).run p = (o, q) → o = .ok () := by
    intro k v o q h
    rw [run_apply] at h
    have hok := answers (.apply node (Catalog.policy k).target (DirectCatalog.args k v)) rfl
    rwa [h] at hok
  cases hs with
  | idle => rfl
  | expired => rfl
  | unchanged => rfl
  | applied => rfl
  | resetFailed h => cases hreset h
  | resetPanicked h => cases hreset h
  | comparisonPanicked judged => exact absurd judged (calm _ _ _)
  | applyFailed _ h => cases happly h
  | applyPanicked _ h => cases happly h

end Direct

namespace Table

@[simp] theorem get?_empty (a : Attribute) : (∅ : Table κ).slots.get? a = none :=
  AttributeMap.get?_empty a

/-- No attribute is listed twice among the slots of a table. -/
theorem nodup_entries (t : Table κ) : (t.slots.entries.map (·.1)).Nodup := by
  rw [AttributeMap.map_fst_entries]
  exact Attribute.nodup_all.filter _

/-- Every settlement of a pass is that of one slot, in whatever state the peer was by then. -/
theorem settles_of_mem_settle {node : NodeHandle} {entries : List (Attribute × Entry κ)} {p : π}
    {a : Attribute} {s : Settlement κ} (h : (a, s) ∈ (settle node entries p).1) :
    ∃ (e : Entry κ) (p' q' : π), (a, e) ∈ entries ∧ e.Settles node p' s q' := by
  induction entries generalizing p with
  | nil => cases h
  | cons x entries ih =>
    simp only [settle, List.mem_cons] at h
    rcases h with h | h
    · rcases x with ⟨b, e⟩
      cases h
      exact ⟨e, p, _, .head _, e.settles_commit node p⟩
    · rcases ih h with ⟨e, p', q', hmem, hs⟩
      exact ⟨e, p', q', .tail _ hmem, hs⟩

variable {node : NodeHandle} {P Q : Attribute → Option (Entry κ) → π → Prop}

/-- The rule for a pass that is under way: `Q` holds of the attributes that are done, `P` of those
whose slots are still to be settled. -/
theorem settle_rule
    (own : ∀ {a e p s q}, P a (some e) p → e.Settles node p s q → Q a s.remains q)
    (keepP : ∀ {a b o e p s q}, a ≠ b → P a o p → P b (some e) p → e.Settles node p s q → P a o q)
    (keepQ : ∀ {a b o e p s q}, a ≠ b → Q a o p → P b (some e) p → e.Settles node p s q → Q a o q)
    {entries : List (Attribute × Entry κ)} (once : (entries.map (·.1)).Nodup) {t : Table κ} {p : π}
    (ahead : ∀ x ∈ entries, P x.1 (some x.2) p)
    (done : ∀ a, a ∉ entries.map (·.1) → Q a (t.slots.get? a) p) (a : Attribute) :
    Q a ((t.absorb (settle node entries p).1).slots.get? a) (settle node entries p).2 := by
  induction entries generalizing t p with
  | nil => exact done a (by simp)
  | cons x entries ih =>
    rcases x with ⟨b, e⟩
    simp only [List.map_cons, List.nodup_cons] at once
    have hs := e.settles_commit node p
    have hb : P b (some e) p := ahead (b, e) (.head _)
    refine ih once.2 ?_ ?_
    · -- the slots ahead are others than the one just settled
      intro y hy
      have hne : y.1 ≠ b := fun h => once.1 (h ▸ List.mem_map_of_mem hy)
      exact keepP hne (ahead y (.tail _ hy)) hb hs
    · intro c hc
      rw [get?_absorbOne]
      by_cases hbc : b = c
      · subst hbc
        rw [if_pos rfl]
        exact own hb hs
      · rw [if_neg hbc]
        have hQ : Q c (t.slots.get? c) p := done c (by simpa [Ne.symm hbc] using hc)
        exact keepQ (Ne.symm hbc) hQ hb hs

/-- The rule for a pass: `P` of every attribute before it becomes `Q` of every attribute after
it. -/
theorem commit_rule (vacant : ∀ {a p}, P a none p → Q a none p)
    (own : ∀ {a e p s q}, P a (some e) p → e.Settles node p s q → Q a s.remains q)
    (keepP : ∀ {a b o e p s q}, a ≠ b → P a o p → P b (some e) p → e.Settles node p s q → P a o q)
    (keepQ : ∀ {a b o e p s q}, a ≠ b → Q a o p → P b (some e) p → e.Settles node p s q → Q a o q)
    {t : Table κ} {p : π} (h : ∀ a, P a (t.slots.get? a) p) (a : Attribute) :
    Q a ((t.commit node p).2.1.slots.get? a) (t.commit node p).2.2 := by
  refine settle_rule own keepP keepQ t.nodup_entries ?_ ?_ a
  · intro x hx
    rw [← AttributeMap.mem_entries.1 hx]
    exact h x.1
  · -- an attribute that is not listed has no slot
    intro b hb
    have hnone : t.slots.get? b = none := by
      rw [AttributeMap.map_fst_entries, AttributeMap.mem_keys] at hb
      simpa [AttributeMap.contains] using hb
    rw [hnone]
    exact vacant (hnone ▸ h b)

/-- What every commit of a slot keeps of the peer, a pass keeps. -/
theorem commit_keeps {I : π → Prop}
    (keep : ∀ {e : Entry κ} {p s q}, I p → e.Settles node p s q → I q) (t : Table κ) {p : π}
    (h : I p) : I (t.commit node p).2.2 :=
  commit_rule (P := fun _ _ p => I p) (Q := fun _ _ p => I p) id keep
    (fun _ hp _ => keep hp) (fun _ hp _ => keep hp) (fun _ => h) .width

end Table

end Reconciler
