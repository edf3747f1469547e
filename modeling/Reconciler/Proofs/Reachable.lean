import Reconciler.Peer.Recorder
import Reconciler.Proofs.Aftermath

/-!
# Tables in use

The tables that come of staging requests, of any kinds and in any order, and of passes in between,
each against a peer that may fail or panic as it likes. Two things hold of all of them: every slot
is kept under its own attribute (`Table.Keyed`), and no slot is vacant (`Table.Occupied`).

Occupied is what makes a pass final. The request of every slot is used up by it, so whatever remains
has a committed value and nothing that waits (`Table.Settled`), and a pass over such a table does
nothing at all (`Table.commit_of_idle`). A change that failed is therefore not tried again.
-/

namespace Reconciler

variable {κ : Type} [Catalog κ]

namespace Entry

/-- A commit keeps the kind of its slot. -/
theorem kind_commit {π : Type} [Peer π] (node : NodeHandle) (e : Entry κ) (p : π) :
    (e.commit node p).1.entry.kind = e.kind := by
  unfold commit
  split <;> rfl

/-- A slot in which nothing waits is settled without a call. -/
theorem commit_of_idle {π : Type} [Peer π] (node : NodeHandle) {e : Entry κ}
    (h : e.slot.staged = none) (p : π) : e.commit node p = (⟨.ok .idle, e⟩, p) := by
  rcases e with ⟨k, ⟨staged, c⟩⟩
  obtain rfl : staged = none := h
  rfl

/-- What a commit leaves of a slot that is not vacant has a committed value, and nothing waits in
it. -/
theorem settled_of_remains {π : Type} [Peer π] {node : NodeHandle} {e f : Entry κ} {p : π}
    (occupied : e.slot.isVacant = false) (h : (e.commit node p).1.remains = some f) :
    f.slot.staged = none ∧ ∃ v, f.slot.committed = some v := by
  rcases e with ⟨k, ⟨staged, c⟩⟩
  cases staged with
  | none =>
    rw [remains_commit_idle] at h
    cases h
    cases c with
    | none => cases occupied
    | some w => exact ⟨rfl, w, rfl⟩
  | some request =>
    cases request with
    | unset =>
      rw [remains_commit_unset] at h
      cases h
    | value v =>
      rcases (Catalog.policy k).succeeds_or_fails node p v c with hv | hv
      · rw [remains_commit_of_succeeds hv] at h
        cases h
        exact ⟨rfl, v, rfl⟩
      · rw [remains_commit_of_fails hv] at h
        rcases Option.map_eq_some_iff.1 h with ⟨w, -, rfl⟩
        exact ⟨rfl, w, rfl⟩

end Entry

namespace Table

/-- No slot is vacant. -/
def Occupied (t : Table κ) : Prop :=
  ∀ a e, t.slots.get? a = some e → e.slot.isVacant = false

/-- Every slot has a committed value, and nothing waits in it. -/
def Settled (t : Table κ) : Prop :=
  ∀ a e, t.slots.get? a = some e → e.slot.staged = none ∧ ∃ v, e.slot.committed = some v

theorem Settled.occupied {t : Table κ} (h : t.Settled) : t.Occupied := by
  intro a e he
  rcases h a e he with ⟨-, v, hv⟩
  simp [Slot.isVacant, hv]

/-! ## A pass over a table in which nothing waits -/

section Idle

variable {π : Type} [Peer π]

theorem settle_of_idle (node : NodeHandle) {entries : List (Attribute × Entry κ)}
    (h : ∀ x ∈ entries, x.2.slot.staged = none) (p : π) :
    settle node entries p = (entries.map fun x => (x.1, ⟨.ok .idle, x.2⟩), p) := by
  induction entries with
  | nil => rfl
  | cons x entries ih =>
    have hx : x.2.commit node p = (⟨.ok .idle, x.2⟩, p) :=
      x.2.commit_of_idle node (h x (.head _)) p
    have hrest := ih fun y hy => h y (.tail _ hy)
    simp only [settle, hx, hrest, List.map_cons]

/-- Slots in which nothing waits are not reported. -/
theorem ofSettled_of_idle (entries : List (Attribute × Entry κ)) :
    Report.ofSettled (entries.map fun x => (x.1, (⟨.ok .idle, x.2⟩ : Settlement κ))) = {} := by
  have happlied : ∀ e : Entry κ, (Settlement.mk (.ok .idle) e).isApplied = false := fun _ => rfl
  have hunchanged : ∀ e : Entry κ, (Settlement.mk (.ok .idle) e).isUnchanged = false :=
    fun _ => rfl
  have hdrops : ∀ e : Entry κ, (Settlement.mk (.ok .idle) e).drops = false := fun _ => rfl
  have herror : ∀ e : Entry κ, (Settlement.mk (.ok .idle) e).error? = none := fun _ => rfl
  simp [Report.ofSettled, List.filter_map, Function.comp_def, happlied, hunchanged, hdrops, herror]

/-- Where nothing waits a pass has nothing to report, and leaves the table and the peer alone. -/
theorem commit_of_idle (node : NodeHandle) {t : Table κ}
    (h : ∀ a e, t.slots.get? a = some e → e.slot.staged = none) (p : π) :
    t.commit node p = ({}, t, p) := by
  have hsettle : settle node t.slots.entries p =
      (t.slots.entries.map fun x => (x.1, ⟨.ok .idle, x.2⟩), p) :=
    settle_of_idle node (fun x hx => h x.1 x.2 (AttributeMap.mem_entries.1 hx)) p
  have hreport : (t.commit node p).1 = {} := by
    simp only [commit, hsettle]
    exact ofSettled_of_idle t.slots.entries
  have htable : (t.commit node p).2.1 = t := by
    apply Table.ext
    intro a
    cases ha : t.slots.get? a with
    | none => exact get?_commit_of_none ha node p
    | some e =>
      rw [get?_commit_of_get? ha, e.commit_of_idle node (h a e ha)]
      rfl
  have hpeer : (t.commit node p).2.2 = p := by
    simp only [commit, hsettle]
  calc
    t.commit node p = ((t.commit node p).1, (t.commit node p).2.1, (t.commit node p).2.2) := rfl
    _ = ({}, t, p) := by rw [hreport, htable, hpeer]

end Idle

/-! ## What staging and passes keep -/

section Keep

variable {t : Table κ}

theorem keyed_empty : (∅ : Table κ).Keyed := by
  intro a e he
  rw [get?_empty] at he
  cases he

theorem occupied_empty : (∅ : Table κ).Occupied := by
  intro a e he
  rw [get?_empty] at he
  cases he

/-- The slot that staging leaves is of the kind that was staged, and a request waits in it. -/
theorem restage_kind_isVacant [DecidableEq κ] (k : κ) (v : Option (Catalog.Value k))
    (o : Option (Entry κ)) :
    (restage k v o).kind = k ∧ (restage k v o).slot.isVacant = false := by
  rw [restage_eq]
  exact ⟨rfl, rfl⟩

/-- Under an attribute that is staged there is a slot of the kind that was staged, and under all
others what was there. -/
theorem kind_of_get?_stage [DecidableEq κ] {k : κ} {v : Option (Catalog.Value k)} {a : Attribute}
    {f : Entry κ} (hf : (t.stage k v).slots.get? a = some f) :
    (Catalog.policy k).target = a ∧ f.kind = k ∨ t.slots.get? a = some f := by
  rw [get?_stage] at hf
  split at hf
  · rename_i ha
    cases hf
    exact .inl ⟨ha, (restage_kind_isVacant k v _).1⟩
  · exact .inr hf

theorem Keyed.stage [DecidableEq κ] (h : t.Keyed) (k : κ) (v : Option (Catalog.Value k)) :
    (t.stage k v).Keyed := by
  intro a e he
  rcases kind_of_get?_stage he with ⟨rfl, hkind⟩ | he
  · rw [Entry.target, Entry.policy, hkind]
  · exact h a e he

theorem Occupied.stage [DecidableEq κ] (h : t.Occupied) (k : κ) (v : Option (Catalog.Value k)) :
    (t.stage k v).Occupied := by
  intro a e he
  rw [get?_stage] at he
  split at he
  · cases he
    exact (restage_kind_isVacant k v _).2
  · exact h a e he

variable {π : Type} [Peer π]

/-- What a pass leaves under an attribute is of the kind that was there. -/
theorem exists_kind_of_get?_commit {node : NodeHandle} {p : π} {a : Attribute} {f : Entry κ}
    (hf : (t.commit node p).2.1.slots.get? a = some f) :
    ∃ e, t.slots.get? a = some e ∧ f.kind = e.kind := by
  rcases exists_of_get?_commit hf with ⟨e, he, hremains⟩
  refine ⟨e, he, ?_⟩
  have hf : (e.commit node (t.peerAt node p a)).1.entry = f := by
    unfold Settlement.remains at hremains
    split at hremains
    · cases hremains
    · exact Option.some.inj hremains
  rw [← hf, e.kind_commit]

theorem Keyed.commit (h : t.Keyed) (node : NodeHandle) (p : π) : (t.commit node p).2.1.Keyed := by
  intro a f hf
  rcases exists_kind_of_get?_commit hf with ⟨e, he, hkind⟩
  calc
    f.target = e.target := by rw [Entry.target, Entry.policy, hkind]; rfl
    _ = a := h a e he

/-- After a pass nothing waits, and every slot has a committed value. -/
theorem Occupied.settled_commit (h : t.Occupied) (node : NodeHandle) (p : π) :
    (t.commit node p).2.1.Settled := by
  intro a f hf
  rcases exists_of_get?_commit hf with ⟨e, he, hremains⟩
  exact Entry.settled_of_remains (h a e he) hremains

end Keep

/-! ## Runs of a table -/

/-- The tables that come of a new one by staging requests and by passes. Every pass may be against
another peer, in whatever state, and about another node. -/
inductive Reachable [DecidableEq κ] : Table κ → Prop where
  | empty : Reachable ∅
  | stage {t : Table κ} (h : Reachable t) (k : κ) (v : Option (Catalog.Value k)) :
      Reachable (t.stage k v)
  | commit {t : Table κ} (h : Reachable t) {π : Type} [Peer π] (node : NodeHandle) (p : π) :
      Reachable (t.commit node p).2.1

namespace Reachable

variable [DecidableEq κ] {t : Table κ}

theorem keyed (h : t.Reachable) : t.Keyed := by
  induction h with
  | empty => exact keyed_empty
  | stage _ k v ih => exact ih.stage k v
  | commit _ node p ih => exact ih.commit node p

theorem occupied (h : t.Reachable) : t.Occupied := by
  induction h with
  | empty => exact occupied_empty
  | stage _ k v ih => exact ih.stage k v
  | commit _ node p ih => exact (ih.settled_commit node p).occupied

/-- In every table in use each slot is kept under its own attribute and is not vacant. After a pass,
whatever the peer answered, each slot that remains has a committed value and nothing waits in it. So
another pass makes no call, reports nothing and changes nothing, against any peer and node. -/
theorem invariant (h : t.Reachable) :
    t.Keyed ∧ t.Occupied ∧
      ∀ {π : Type} [Peer π] (node : NodeHandle) (p : π),
        (t.commit node p).2.1.Settled ∧
          ∀ {ρ : Type} [Peer ρ] (m : NodeHandle) (q : ρ),
            (t.commit node p).2.1.commit m q = ({}, (t.commit node p).2.1, q) := by
  refine ⟨h.keyed, h.occupied, ?_⟩
  intro π _ node p
  have hsettled : (t.commit node p).2.1.Settled := h.occupied.settled_commit node p
  refine ⟨hsettled, ?_⟩
  intro ρ _ m q
  exact commit_of_idle m (fun a e he => (hsettled a e he).1) q

/-- A color is replaced by a number of another kind, and a pass panics both in a comparison and in
the peer. What remains is at rest. -/
theorem invariant_conflict_and_panics :
    let before := (((∅ : Table Probe).stage .tint (some (Color.argb 3))).stage .conflict
      (some (5 : Int))).stage .panicky (some (0 : Nat))
    let t := ((before.commit ⟨1⟩ ({} : Recorder)).2.1.stage .panicky (some (1 : Nat))).stage .hover
      (some (2 : Int))
    let p : Recorder := { panicking := [.hoverEffect] }
    t.Reachable ∧ t.Keyed ∧ t.Occupied ∧ (t.commit ⟨1⟩ p).2.1.Settled ∧
      ∀ q : Recorder, (t.commit ⟨1⟩ p).2.1.commit ⟨2⟩ q = ({}, (t.commit ⟨1⟩ p).2.1, q) := by
  intro before t p
  have ht : t.Reachable :=
    .stage (.stage (.commit (.stage (.stage (.stage .empty _ _) _ _) _ _) _ _) _ _) _ _
  have hpass := ht.invariant.2.2 ⟨1⟩ p
  exact ⟨ht, ht.invariant.1, ht.invariant.2.1, hpass.1, fun q => hpass.2 ⟨2⟩ q⟩

end Reachable

end Table

end Reconciler
