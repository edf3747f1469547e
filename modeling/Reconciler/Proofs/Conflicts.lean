import Reconciler.Peer.Recorder
import Reconciler.Probe
import Reconciler.Proofs.Turn

/-!
# Requests of several kinds for one attribute

A table keeps one slot for an attribute, and requests of several kinds may be about it. A request of
the slot's own kind replaces the one that waits. One of another kind puts a new slot in its place,
and what was committed is forgotten, for good: a later request of the first kind does not bring it
back.

What a list of requests leaves of an attribute is told by those about it alone
(`Table.get?_requestAll`), so requests about different attributes may come in any order
(`Table.requestAll_congr`). The kind and the request are those of the last one, and the committed
value is still there if no request was of another kind (`Table.committed?_foldl_land`).
-/

namespace Reconciler

variable {κ : Type} [Catalog κ]

/-- Brings a value to a node when it has nothing to be compared with: the slot that is left, how
that ended, and the peer afterwards. -/
def Entry.push {π : Type} [Peer π] (node : NodeHandle) (k : κ) (v : Catalog.Value k) (p : π) :
    Settlement κ × π :=
  match ((Catalog.policy k).apply node v).run p with
  | (.ok (), q) => (⟨.ok .applied, ⟨k, ⟨none, some v⟩⟩⟩, q)
  | (.error err, q) => (⟨.error (.apply (Catalog.policy k).target err), ⟨k, ⟨none, none⟩⟩⟩, q)
  | (.panicked panic, q) =>
    (⟨.error (.ofPanic (Catalog.policy k).target panic), ⟨k, ⟨none, none⟩⟩⟩, q)

/-- A staged value is not compared with anything if nothing is committed. -/
theorem Entry.commit_eq_push {π : Type} [Peer π] (node : NodeHandle) (k : κ)
    (v : Catalog.Value k) (p : π) :
    (Entry.mk k ⟨some (.value v), none⟩).commit node p = push node k v p := by
  have hjudged : (Catalog.policy k).verdict v none = .changed := rfl
  rcases h : ((Catalog.policy k).apply node v).run p with ⟨_ | err | panic, q⟩ <;>
    simp only [commit, Slot.commit, target, policy, hjudged, push, h]

namespace Table

/-- A request to a table: its kind, and a value of it or nothing for the default. -/
structure Request (κ : Type) [Catalog κ] where
  kind : κ
  value? : Option (Catalog.Value kind)

namespace Request

/-- The attribute that a request is about. -/
def target (r : Request κ) : Attribute := (Catalog.policy r.kind).target

/-- The requests about an attribute, in their order. -/
def about (a : Attribute) (rs : List (Request κ)) : List (Request κ) := rs.filter (·.target = a)

theorem mem_about {a : Attribute} {r : Request κ} {rs : List (Request κ)} :
    r ∈ about a rs ↔ r ∈ rs ∧ r.target = a := by
  simp [about]

theorem about_cons_self (r : Request κ) (rs : List (Request κ)) :
    about r.target (r :: rs) = r :: about r.target rs := by
  simp [about]

theorem about_cons_of_ne {a : Attribute} {r : Request κ} (h : r.target ≠ a)
    (rs : List (Request κ)) : about a (r :: rs) = about a rs := by
  simp [about, h]

end Request

variable [DecidableEq κ]

open Request

/-- Stages a request. -/
def request (t : Table κ) (r : Request κ) : Table κ := t.stage r.kind r.value?

/-- Stages requests one after the other. -/
def requestAll (t : Table κ) (rs : List (Request κ)) : Table κ := rs.foldl request t

/-- What a request leaves where it is staged, over a slot or none. -/
def land (o : Option (Entry κ)) (r : Request κ) : Option (Entry κ) :=
  some (restage r.kind r.value? o)

section Land

variable {k : κ}

/-- A request keeps what is committed of its own kind, and nothing of any other. -/
theorem committed?_land (o : Option (Entry κ)) (r : Request κ) :
    committed? k (land o r) = if r.kind = k then committed? k o else none := by
  rw [land, restage_eq]
  split
  · rename_i h
    subst h
    exact committed?_self _ _
  · rename_i h
    exact committed?_of_ne h

/-- What is committed is kept by requests of its own kind, and lost with the first one of
another. -/
theorem committed?_foldl_land (rs : List (Request κ)) (o : Option (Entry κ)) :
    committed? k (rs.foldl land o) =
      if ∀ r ∈ rs, r.kind = k then committed? k o else none := by
  induction rs generalizing o with
  | nil => simp
  | cons r rs ih =>
    rw [List.foldl_cons, ih, committed?_land]
    by_cases h : r.kind = k <;> simp [h]

/-- Over a slot of their kind, requests of one kind keep what is committed. -/
theorem committed?_of_alike {rs : List (Request κ)} (h : ∀ r ∈ rs, r.kind = k)
    (s : Slot (Catalog.Value k)) : committed? k (rs.foldl land (some ⟨k, s⟩)) = s.committed := by
  rw [committed?_foldl_land, if_pos h, committed?_self]

/-- Over no slot nothing is committed, and over one of another kind than some request. -/
theorem committed?_of_conflict {rs : List (Request κ)} {o : Option (Entry κ)}
    (h : ∀ e, o = some e → ∃ r ∈ rs, r.kind ≠ e.kind) : committed? k (rs.foldl land o) = none := by
  rw [committed?_foldl_land]
  split
  · rename_i hkinds
    rcases o with _ | e
    · rfl
    · obtain ⟨r, hr, hne⟩ := h e rfl
      exact committed?_of_ne fun he => hne ((hkinds r hr).trans he.symm)
  · rfl

/-- The slot that requests leave is of the kind of the last one, which waits in it. -/
theorem foldl_land_of_getLast? {rs : List (Request κ)} {last : Request κ}
    (h : rs.getLast? = some last) (o : Option (Entry κ)) :
    rs.foldl land o = some ⟨last.kind, ⟨some (.ofOption last.value?),
      committed? last.kind (rs.foldl land o)⟩⟩ := by
  obtain ⟨earlier, rfl⟩ := List.getLast?_eq_some_iff.1 h
  rw [List.foldl_append, List.foldl_cons, List.foldl_nil, committed?_land, if_pos rfl, land,
    restage_eq]

end Land

variable {t : Table κ}

/-- Requests about other attributes have no say in what is left of one. -/
theorem get?_requestAll (t : Table κ) (rs : List (Request κ)) (a : Attribute) :
    (t.requestAll rs).slots.get? a = (about a rs).foldl land (t.slots.get? a) := by
  induction rs generalizing t with
  | nil => rfl
  | cons r rs ih =>
    have hrest : (t.requestAll (r :: rs)).slots.get? a =
        (about a rs).foldl land ((t.request r).slots.get? a) := ih (t.request r)
    have hfirst : (t.request r).slots.get? a =
        if r.target = a then land (t.slots.get? a) r else t.slots.get? a :=
      get?_stage t r.kind r.value? a
    rw [hrest, hfirst]
    by_cases h : r.target = a
    · subst h
      rw [if_pos rfl, about_cons_self, List.foldl_cons]
    · rw [if_neg h, about_cons_of_ne h]

/-- Requests may be interleaved in any way that keeps their order for each attribute. -/
theorem requestAll_congr {rs ss : List (Request κ)} (h : ∀ a, about a rs = about a ss) :
    t.requestAll rs = t.requestAll ss := by
  apply Table.ext
  intro a
  rw [get?_requestAll, get?_requestAll, h a]

/-- Requests about different attributes commute. -/
theorem request_comm {r s : Request κ} (h : r.target ≠ s.target) :
    (t.request r).request s = (t.request s).request r := by
  have hswap : ∀ a, about a [r, s] = about a [s, r] := by
    intro a
    by_cases hr : r.target = a
    · have hs : s.target ≠ a := fun hs => h (hr.trans hs.symm)
      simp [about, hr, hs]
    · simp [about, List.filter_cons, hr]
  exact requestAll_congr hswap

/-- What requests of any kinds leave of the slots of a table. An attribute that none is about keeps
its slot. Of the others, the last request about the attribute gives the kind of the slot and waits
in it. The slot keeps its committed value if it was there before and every request about the
attribute was of its kind. Otherwise nothing is committed, and the next pass brings a value that
waits to the peer without comparing it. In what order requests about different attributes come is of
no matter. -/
theorem requestAll_over_conflicts (t : Table κ) (rs : List (Request κ)) :
    (∀ a, (∀ r ∈ rs, r.target ≠ a) → (t.requestAll rs).slots.get? a = t.slots.get? a) ∧
    (∀ a last, (about a rs).getLast? = some last →
      ∃ s, (t.requestAll rs).slots.get? a = some ⟨last.kind, s⟩ ∧
        s.staged = some (.ofOption last.value?) ∧
        (∀ s₀, t.slots.get? a = some ⟨last.kind, s₀⟩ →
          (∀ r ∈ about a rs, r.kind = last.kind) → s.committed = s₀.committed) ∧
        ((∀ e, t.slots.get? a = some e → ∃ r ∈ about a rs, r.kind ≠ e.kind) →
          s.committed = none ∧
          ∀ v, last.value? = some v → ∀ {π : Type} [Peer π] (node : NodeHandle) (p : π),
            (t.requestAll rs).settlement? node p a =
              some (Entry.push node last.kind v ((t.requestAll rs).peerAt node p a)).1 ∧
            (Entry.mk last.kind s).commit node p = Entry.push node last.kind v p)) ∧
    (∀ ss, (∀ a, about a ss = about a rs) → t.requestAll ss = t.requestAll rs) ∧
    ∀ r s : Request κ, r.target ≠ s.target →
      (t.request r).request s = (t.request s).request r := by
  refine ⟨?_, ?_, fun ss h => requestAll_congr h, fun r s => request_comm⟩
  · intro a h
    have hnone : about a rs = [] := by
      simpa [about, List.filter_eq_nil_iff] using h
    rw [get?_requestAll, hnone, List.foldl_nil]
  · intro a last hlast
    have hslot := foldl_land_of_getLast? hlast (t.slots.get? a)
    refine ⟨_, (get?_requestAll t rs a).trans hslot, rfl, ?_, ?_⟩
    · intro s₀ hs₀ hkinds
      rw [hs₀]
      exact committed?_of_alike hkinds s₀
    · intro hconflict
      have hnone := committed?_of_conflict (k := last.kind) hconflict
      refine ⟨hnone, ?_⟩
      intro v hv π _ node p
      have hpush : ∀ q : π, (Entry.mk last.kind ⟨some (.ofOption last.value?),
          committed? last.kind ((about a rs).foldl land (t.slots.get? a))⟩).commit node q =
            Entry.push node last.kind v q := by
        intro q
        rw [hnone, hv]
        exact Entry.commit_eq_push node last.kind v q
      refine ⟨?_, hpush p⟩
      rw [settlement?, get?_requestAll, hslot, Option.map_some, hpush]

/-- A color is committed, and so is a hover effect. Then a number takes the place of the color, and
the same color the place of the number; the next pass writes it again, although it is equal to the
one from before. The hover effect is asked for and unset, and what is committed of it stays so. -/
theorem requestAll_over_conflicts_color_and_back :
    let before :=
      ((∅ : Table Probe).stage .tint (some (Color.argb 1))).stage .hover (some (2 : Int))
    let t := (before.commit ⟨1⟩ ({} : Recorder)).2.1
    let rs : List (Request Probe) := [⟨.conflict, some (5 : Int)⟩, ⟨.hover, some (3 : Int)⟩,
      ⟨.tint, some (Color.argb 1)⟩, ⟨.hover, none⟩]
    t.slots.get? .backgroundColor = some ⟨.tint, ⟨none, some (Color.argb 1)⟩⟩ ∧
      (t.requestAll rs).slots.get? .backgroundColor =
        some ⟨.tint, ⟨some (.value (Color.argb 1)), none⟩⟩ ∧
      (∀ p : Recorder, (t.requestAll rs).settlement? ⟨1⟩ p .backgroundColor =
        some (Entry.push ⟨1⟩ .tint (Color.argb 1)
          ((t.requestAll rs).peerAt ⟨1⟩ p .backgroundColor)).1) ∧
      (t.requestAll rs).slots.get? .hoverEffect = some ⟨.hover, ⟨some .unset, some (2 : Int)⟩⟩ ∧
      (t.requestAll rs).slots.get? .opacity = none := by
  intro before t rs
  have hcolor : t.slots.get? .backgroundColor = some ⟨.tint, ⟨none, some (Color.argb 1)⟩⟩ := rfl
  have hhover : t.slots.get? .hoverEffect = some ⟨.hover, ⟨none, some (2 : Int)⟩⟩ := rfl
  have hrequests := requestAll_over_conflicts t rs
  -- the number is of another kind than the color that was there
  have hconflict : ∀ e, t.slots.get? .backgroundColor = some e →
      ∃ r ∈ about .backgroundColor rs, r.kind ≠ e.kind := by
    intro e he
    rw [hcolor] at he
    cases he
    exact ⟨⟨.conflict, some (5 : Int)⟩, mem_about.2 ⟨.head _, rfl⟩, by decide⟩
  have hkinds : ∀ r ∈ about .hoverEffect rs, r.kind = Probe.hover := by
    intro r hr
    have hmem : r ∈ [⟨.hover, some (3 : Int)⟩, (⟨.hover, none⟩ : Request Probe)] := hr
    rw [List.mem_cons, List.mem_singleton] at hmem
    rcases hmem with rfl | rfl <;> rfl
  obtain ⟨⟨x, c⟩, hs, hx, -, hlost⟩ :=
    hrequests.2.1 .backgroundColor ⟨.tint, some (Color.argb 1)⟩ rfl
  obtain ⟨⟨y, d⟩, hu, hy, hkept, -⟩ := hrequests.2.1 .hoverEffect ⟨.hover, none⟩ rfl
  obtain ⟨hc, hpush⟩ := hlost hconflict
  have hd : d = some (2 : Int) := hkept ⟨none, some (2 : Int)⟩ hhover hkinds
  subst hx hc hy hd
  exact ⟨hcolor, hs, fun p => (hpush _ rfl ⟨1⟩ p).1, hu, hrequests.1 .opacity (by decide)⟩

end Table

end Reconciler
