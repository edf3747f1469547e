import Reconciler.Proofs.Precedence
import Reconciler.Proofs.WriteThrough

/-!
# Styled rounds forget the past

The platform moves a node into a state, the component is styled for it, and it is committed: one
*round*. A style leaves its requests behind when the state ends, and what was committed in earlier
rounds decides what is skipped in a later one. Still, if the normal style is about every attribute
that some style is about, the node shows after each round what the styles ask for in its last state,
whatever the states before were (`StateStyles.Rounds.rendered_by_last_state`).

A sequence of rounds is a run of the component (`StateStyles.Rounds.run`), so the invariants of runs
are at hand. What is left to show is that the last request of the run is that of the last round.
-/

namespace Reconciler

/-! ## Attributes that are about to be brought to a node -/

/-- What a pass needs to make a slot agree with what is rendered of its attribute: they agree
already, or a request waits over nothing. Then whatever is rendered is overwritten. -/
inductive Due (a : Attribute) : Option (Entry Standard.Kind) → Option (List WireValue) → Prop where
  | backed {o : Option (Entry Standard.Kind)} {x : Option (List WireValue)} (h : Backed a o x) :
      Due a o x
  | first {request : Staged (Standard.Value a)} {x : Option (List WireValue)} :
      Due a (some ⟨Standard.setKind a, ⟨some request, none⟩⟩) x

namespace Due

variable {a : Attribute} {o : Option (Entry Standard.Kind)} {e : Entry Standard.Kind}
  {x : Option (List WireValue)}

/-- A request makes a slot due that is new. -/
theorem create (r : Option (Standard.Value a)) :
    Due a (some (Table.restage (Standard.setKind a) r none)) x := .first

theorem of_none (h : Due a none x) : Backed a none x := by
  cases h with
  | backed h => exact h

variable {node : NodeHandle} {p q : Headless} {s : Settlement Standard.Kind}

/-- On a live node the commit of a slot that is due makes it agree with what is rendered. -/
theorem settles (alive : p.isAlive node = true) (h : Due a (some e) (p.attribute? node a))
    (hs : e.Settles node p s q) : Backed a s.remains (q.attribute? node a) := by
  rw [← Headless.get?_rendered] at h ⊢
  cases h with
  | backed h => exact h.settles (Headless.account node) hs
  | first =>
    have hreset : ∀ {o : Outcome PeerError Unit} {q : Headless},
        ((Standard.policy a).reset node).run p = (o, q) → (q.rendered node).get? a = none := by
      intro o q hrun
      have hread := (Headless.account node).read_run_reset hrun
      rwa [Standard.target_setKind] at hread
    cases hs with
    | expired hrun =>
      rw [hreset hrun]
      exact .absent
    | resetFailed hrun =>
      rw [hreset hrun]
      exact .absent
    | resetPanicked hrun =>
      rw [hreset hrun]
      exact .absent
    | unchanged judged => cases judged
    | comparisonPanicked judged => cases judged
    | @applied _ v _ _ _ _ hrun =>
      have hread := (Headless.account node).read_run_apply hrun
      rw [Standard.target_setKind] at hread
      have hsome : (q.rendered node).get? a = some (Standard.args a v) := hread
      rw [hsome]
      exact .kept (.inl rfl)
    -- the node is alive, so it takes the value
    | applyFailed _ hrun => cases Headless.eq_ok_of_run_apply alive hrun
    | applyPanicked _ hrun => cases Headless.eq_ok_of_run_apply alive hrun

end Due

/-- A slot that is wanted is of the kind that setting its attribute stages. -/
theorem Wanted.kind_eq {a : Attribute} {e : Entry Standard.Kind}
    {r : Option (Option (Standard.Value a))} (h : Wanted a (some e) r) :
    e.kind = Standard.setKind a := by
  cases h with
  | met h =>
    cases h with
    | reached => rfl
  | waiting => rfl

/-- A pass on a live node makes a slot that is due agree with what is rendered of its attribute. -/
theorem Component.backed_commit {c : Component} {p : Headless} (alive : p.isAlive c.node = true)
    {r : (a : Attribute) → Option (Option (Standard.Value a))}
    (wanted : ∀ a, Wanted a (c.slots.slots.get? a) (r a)) {a : Attribute}
    (due : Due a (c.slots.slots.get? a) (p.attribute? c.node a)) :
    Backed a ((c.commit p).2.1.slots.slots.get? a) ((c.commit p).2.2.attribute? c.node a) := by
  -- a slot of another attribute is settled with calls about that attribute alone
  have keep : ∀ {b : Attribute} {e : Entry Standard.Kind} {p q : Headless}
      {s : Settlement Standard.Kind}, a ≠ b → Wanted b (some e) (r b) → e.Settles c.node p s q →
      q.attribute? c.node a = p.attribute? c.node a := by
    intro b e p q s hab hb hs
    have htarget : e.target = b := Standard.target_of_kind_eq hb.kind_eq
    rw [← Headless.get?_rendered, ← Headless.get?_rendered]
    exact (Headless.account c.node).read_settles hs (htarget ▸ hab.symm)
  refine (Table.commit_rule
    (P := fun b o (p : Headless) => Wanted b o (r b) ∧ p.isAlive c.node = true ∧
      (b = a → Due b o (p.attribute? c.node b)))
    (Q := fun b o (p : Headless) => b = a → Backed b o (p.attribute? c.node b))
    ?_ ?_ ?_ ?_ (fun b => ⟨wanted b, alive, ?_⟩) a) rfl
  · intro b p hP hb
    exact (hP.2.2 hb).of_none
  · intro b e p s q hP hs hb
    exact (hP.2.2 hb).settles hP.2.1 hs
  · rintro b b' o e p s q hne hP hP' hs
    refine ⟨hP.1, (Headless.isAlive_settles hs).trans hP.2.1, ?_⟩
    rintro rfl
    rw [keep hne hP'.1 hs]
    exact hP.2.2 rfl
  · rintro b b' o e p s q hne hQ hP' hs rfl
    rw [keep hne hP'.1 hs]
    exact hQ rfl
  · rintro rfl
    exact due

/-! ## Rounds -/

namespace StateStyles

/-- Some style is about an attribute. -/
def Touches (s : StateStyles (List Edit)) (a : Attribute) : Prop :=
  ∃ l es, s.style? l = some es ∧ ∃ e ∈ es, e.target = a

/-- The normal style is about every attribute that some style is about. -/
def NormalCovers (s : StateStyles (List Edit)) : Prop :=
  ∀ a, s.Touches a → ∃ es, s.normal = some es ∧ ∃ e ∈ es, e.target = a

/-- The edits of a round: the styles for the state, in the order of application. -/
def edits (s : StateStyles (List Edit)) (current : UiState) : List Edit :=
  (s.active current).flatten

/-- Moves the node of a component into a state, applies styles, and commits the component. -/
def round (s : StateStyles (List Edit)) (u : UiState) (c : Component) (p : Headless) :
    Component × Headless :=
  let (_, p) := p.setState c.node u
  let (_, c, p) := s.apply c p
  let (_, c, p) := c.commit p
  (c, p)

/-- Rounds of a new component on a node of a headless peer, with the states of the rounds. Between
two rounds others may use the peer for other nodes. -/
inductive Rounds (s : StateStyles (List Edit)) (n : NodeHandle) (origin : Headless) :
    List UiState → Component → Headless → Prop where
  -- The component is new.
  | start : Rounds s n origin [] { node := n } origin
  -- A round is made.
  | round {us : List UiState} {c : Component} {p : Headless} (rounds : Rounds s n origin us c p)
      (u : UiState) : Rounds s n origin (us ++ [u]) (s.round u c p).1 (s.round u c p).2
  -- Others use the peer.
  | outside {us : List UiState} {c : Component} {p q : Headless}
      (rounds : Rounds s n origin us c p) (h : Headless.Spares n p q) : Rounds s n origin us c q

variable {s : StateStyles (List Edit)} {n : NodeHandle}

/-- Some request is made in every state for an attribute that some style is about. -/
theorem NormalCovers.exists_request? (covers : s.NormalCovers) (u : UiState) {a : Attribute}
    (h : s.Touches a) : ∃ r, s.request? u a = some r := by
  rcases covers a h with ⟨es, hes, e, he, ha⟩
  apply Option.ne_none_iff_exists'.1
  intro hnone
  exact s.request?_eq_none_iff.1 hnone .normal es rfl hes e he ha

/-- The peer in a round, when the component is committed. -/
def prepared (s : StateStyles (List Edit)) (u : UiState) (n : NodeHandle) (p : Headless) :
    Headless :=
  ((p.setState n u).2.setSupported n s.supported).2

/-- Up to the commit, a round leaves the attributes of its node alone. -/
theorem spares_prepared (s : StateStyles (List Edit)) (u : UiState) (n : NodeHandle)
    (p : Headless) : Headless.Spares n p (s.prepared u n p) := by
  have hmoved : Headless.Spares n p (p.setState n u).2 :=
    .update n n p (f := fun node => { node with state := u }) fun _ => rfl
  have hdeclared : Headless.Spares n (p.setState n u).2 (s.prepared u n p) :=
    .update n n _ (f := fun node => { node with supported := s.supported }) fun _ => rfl
  exact hmoved.trans hdeclared

/-- Up to the commit, a round is a run of its edits. -/
theorem run_prepared (s : StateStyles (List Edit)) {origin p : Headless} {es : List Edit}
    {c : Component} (run : Component.Run (Headless.Spares n) n origin es c p) (u : UiState) :
    Component.Run (Headless.Spares n) n origin (es ++ s.edits u) (c.editAll (s.edits u))
      (s.prepared u n p) :=
  .outside (run.editAll (s.edits u)) (s.spares_prepared u n p)

/-- On a live node a round commits what the styles for its state ask for. -/
theorem round_eq {c : Component} {p : Headless} (alive : p.isAlive c.node = true) (u : UiState) :
    s.round u c p = ((c.editAll (s.edits u)).commit (s.prepared u c.node p)).2 := by
  rcases Option.isSome_iff_exists.1 alive with ⟨node, hnode⟩
  have hmoved : (p.setState c.node u).2.node? c.node = some { node with state := u } := by
    rw [Headless.setState, Headless.node?_update, if_pos rfl, hnode]
    rfl
  simp only [round, apply_of_node? hmoved]
  rfl

namespace Rounds

variable {p q : Headless} {us : List UiState} {c : Component}

/-- Rounds on a live node are a run of the component, with the edits of all rounds. -/
theorem run (alive : p.isAlive n = true) (rounds : Rounds s n p us c q) :
    Component.Run (Headless.Spares n) n p (us.flatMap s.edits) c q := by
  induction rounds with
  | start => exact .start
  | round _ u ih =>
    obtain rfl := ih.node_eq
    rw [round_eq (ih.wanted alive).2, List.flatMap_append, List.flatMap_singleton]
    exact .commit (s.run_prepared ih u)
  | outside _ h ih => exact .outside ih h

/-- When a round is to be made its node is alive. It still is once the round is prepared, and then
every last request waits or is met. -/
theorem ready (alive : p.isAlive n = true) (rounds : Rounds s n p us c q) (u : UiState) :
    c.node = n ∧ q.isAlive n = true ∧
      (s.prepared u n q).isAlive (c.editAll (s.edits u)).node = true ∧
      ∀ a, Wanted a ((c.editAll (s.edits u)).slots.slots.get? a)
        (Edit.lastRequest? a ((us ++ [u]).flatMap s.edits)) := by
  have hrun := rounds.run alive
  have hprepared := s.run_prepared hrun u
  have hwanted := hprepared.wanted alive
  rw [List.flatMap_append, List.flatMap_singleton, hprepared.node_eq]
  exact ⟨hrun.node_eq, (hrun.wanted alive).2, hwanted.2, hwanted.1⟩

/-- After a round every last request is met. -/
theorem met (alive : p.isAlive n = true) (rounds : Rounds s n p us c q) (some : us ≠ [])
    (a : Attribute) :
    Met a (c.slots.slots.get? a) (Edit.lastRequest? a (us.flatMap s.edits)) := by
  induction rounds with
  | start => exact absurd rfl some
  | @round us c q rounds u =>
    obtain ⟨rfl, hq, hprepared, hwanted⟩ := rounds.ready alive u
    rw [round_eq hq]
    exact (Component.met_commit hprepared hwanted a).1
  | outside _ _ ih => exact ih some

/-- The slot of an attribute that some style is about agrees with what is rendered of it, from the
first round on. -/
theorem backed (covers : s.NormalCovers) (alive : p.isAlive n = true)
    (rounds : Rounds s n p us c q) {a : Attribute} (touched : s.Touches a) :
    (us = [] ∧ c.slots.slots.get? a = none) ∨
      Backed a (c.slots.slots.get? a) (q.attribute? n a) := by
  induction rounds with
  | start => exact .inl ⟨rfl, Table.get?_empty a⟩
  | @round us c q rounds u ih =>
    right
    obtain ⟨rfl, hq, hprepared, hwanted⟩ := rounds.ready alive u
    have hdue : Due a ((c.editAll (s.edits u)).slots.slots.get? a)
        ((s.prepared u c.node q).attribute? (c.editAll (s.edits u)).node a) := by
      rcases covers.exists_request? u touched with ⟨r, hr⟩
      rw [c.node_editAll, (s.spares_prepared u c.node q).attribute?_eq, c.get?_editAll, edits,
        lastRequest?_active, hr]
      rcases ih with ⟨-, hnone⟩ | h
      · simp only [hnone]
        exact .create r
      · exact .backed (h.restage r)
    have hcommit := Component.backed_commit hprepared hwanted hdue
    rw [c.node_editAll] at hcommit
    rw [round_eq hq]
    exact hcommit
  | outside _ h ih =>
    rw [h.attribute?_eq]
    exact ih

/-- After the last of some rounds the node shows what the styles ask for in its last state. It was
alive at first, others leave it alone, and the normal style is about every attribute that some style
is about. -/
theorem rendered_by_last_state (covers : s.NormalCovers) (alive : p.isAlive n = true) {u : UiState}
    (rounds : Rounds s n p (us ++ [u]) c q) {a : Attribute} (touched : s.Touches a) :
    ∃ r, s.request? u a = some r ∧ (q.attribute? n a = none ↔ r = none) ∧
      ∀ v, r = some v →
        ∃ w, q.attribute? n a = some (Standard.args a w) ∧ Standard.Indistinct a v w := by
  rcases covers.exists_request? u touched with ⟨r, hr⟩
  -- the last round is about the attribute, so no round before it counts
  have hlast : Edit.lastRequest? a ((us ++ [u]).flatMap s.edits) = some r := by
    rw [List.flatMap_append, List.flatMap_singleton, Edit.lastRequest?_append, edits,
      lastRequest?_active, hr]
    rfl
  have hbacked : Backed a (c.slots.slots.get? a) (q.attribute? n a) := by
    rcases rounds.backed covers alive touched with ⟨hnone, -⟩ | h
    · exact absurd hnone (by simp)
    · exact h
  have hrendered := (rounds.met alive (by simp) a).rendered hbacked
  rw [hlast] at hrendered
  refine ⟨r, hr, ?_, ?_⟩
  · simpa using hrendered.1
  · intro v hv
    exact hrendered.2 v (by rw [hv])

/-- A node was pressed, and then disabled, and is in the normal state again. Its height was written
and is no longer shown, for the normal style unsets it; its width is that of the normal style. -/
theorem rendered_by_last_state_normal :
    let p := ({} : Headless).createNode
    let s : StateStyles (List Edit) :=
      { normal := some [.set .width (.vp 1), .unset .height]
        pressed := some [.set .height (.vp 2), .set .width (.vp 3)]
        disabled := some [.set .height (.vp 4)] }
    let first := s.round .pressed (Component.mk p.1 ∅) p.2
    let second := s.round .disabled first.1 first.2
    let third := s.round .normal second.1 second.2
    first.2.attribute? p.1 .height ≠ none ∧ third.2.attribute? p.1 .height = none ∧
    ∃ w, third.2.attribute? p.1 .width = some (Standard.args .width w) ∧
      Standard.Indistinct .width (Length.vp 1) w := by
  intro p s first second third
  have covers : s.NormalCovers := by
    rintro a ⟨l, es, hes, e, he, rfl⟩
    have htarget : e.target = .width ∨ e.target = .height := by
      cases l <;> cases hes <;> simp only [List.mem_cons, List.not_mem_nil, or_false] at he
      · rcases he with rfl | rfl
        · exact .inl rfl
        · exact .inr rfl
      · rcases he with rfl | rfl
        · exact .inr rfl
        · exact .inl rfl
      · exact .inr (he ▸ rfl)
    rcases htarget with h | h
    · exact ⟨_, rfl, .set .width (.vp 1), .head _, h.symm⟩
    · exact ⟨_, rfl, .unset .height, .tail _ (.head _), h.symm⟩
  have alive : p.2.isAlive p.1 = true := rfl
  have hrounds : Rounds s p.1 p.2 ([.pressed, .disabled] ++ [.normal]) third.1 third.2 :=
    .round (.round (.round .start .pressed) .disabled) .normal
  have htouched : s.Touches .width ∧ s.Touches .height :=
    ⟨⟨.normal, _, rfl, .set .width (.vp 1), .head _, rfl⟩,
      ⟨.normal, _, rfl, .unset .height, .tail _ (.head _), rfl⟩⟩
  have hfirst : Rounds s p.1 p.2 ([] ++ [.pressed]) first.1 first.2 := .round .start .pressed
  refine ⟨?_, ?_, ?_⟩
  · rcases rendered_by_last_state covers alive hfirst htouched.2 with ⟨r, hr, hnone, -⟩
    cases hr
    exact fun h => absurd (hnone.1 h) (Option.some_ne_none _)
  · rcases rendered_by_last_state covers alive hrounds htouched.2 with ⟨r, hr, hnone, -⟩
    cases hr
    exact hnone.2 rfl
  · rcases rendered_by_last_state covers alive hrounds htouched.1 with ⟨r, hr, -, hsome⟩
    cases hr
    exact hsome _ rfl

end Rounds

end StateStyles

end Reconciler
