import Mathlib.Data.Nat.Bitwise
import Reconciler.Proofs.Burst
import Reconciler.Proofs.Rendered
import Reconciler.StateStyles

/-!
# Which style has the last word

Styles are staged one on top of the other, so the request that waits for an attribute in the end is
the last one that any of them made. `StateStyles.request?` tells it without the staging: it goes
through the styles for a state from the highest precedence down (`StateStyles.ranked`), passes over
those that are not about the attribute, and takes the last request of the first one that is.

`StateStyles.apply_of_node?` and `StateStyles.apply_of_dead` say all that applying styles does, on a
node that is alive and without one. With the lemmas on bursts they give what it leaves of each slot,
`StateStyles.apply_precedence`.
-/

namespace Reconciler

/-! ## Flags by their places -/

namespace UiState

/-- Whether the flag at a place of the word is set. -/
def hasFlag (s : UiState) (i : Nat) : Bool := s.bits.toNat.testBit i

variable {f : UInt32} {k : Nat}

/-- A set contains a single flag if the flag at its place is set. -/
theorem contains_eq_hasFlag (s : UiState) (hf : f.toNat = 1 <<< k) :
    s.contains ⟨f⟩ = s.hasFlag k := by
  have hand : (s.bits &&& f).toNat = (s.hasFlag k).toNat * 1 <<< k := by
    rw [UInt32.toNat_and, hf, Nat.one_shiftLeft, Nat.and_two_pow]
    rfl
  have hpos : 0 < 1 <<< k := by
    rw [Nat.one_shiftLeft]
    exact Nat.two_pow_pos k
  rw [contains, Bool.eq_iff_iff, beq_iff_eq, ← UInt32.toNat_inj, hand, hf]
  cases s.hasFlag k with
  | true => simp
  | false =>
    simp only [Bool.toNat_false, Bool.false_eq_true, iff_false]
    omega

theorem hasFlag_union (s t : UiState) (i : Nat) :
    (s ∪ t).hasFlag i = (s.hasFlag i || t.hasFlag i) := by
  have hunion : (s ∪ t).bits = s.bits ||| t.bits := rfl
  rw [hasFlag, hunion, UInt32.toNat_or, Nat.testBit_or]
  rfl

theorem hasFlag_normal (i : Nat) : normal.hasFlag i = false := Nat.zero_testBit i

theorem hasFlag_single (hf : f.toNat = 1 <<< k) (i : Nat) :
    (UiState.mk f).hasFlag i = decide (k = i) := by
  rw [hasFlag, hf, Nat.one_shiftLeft, Nat.testBit_two_pow]

end UiState

/-! ## Layers -/

namespace StateStyles

/-- The places that a style can have: the normal state, and each interaction state. -/
inductive Layer where
  | normal
  | pressed
  | focused
  | disabled
  | selected
deriving DecidableEq, Repr

namespace Layer

/-- The place of the flag for the state. The normal state has none. -/
def flag? : Layer → Option Nat
  | normal => none
  | pressed => some 0
  | focused => some 1
  | disabled => some 2
  | selected => some 3

/-- Whether a style for the layer takes part in a state: always if it is the normal one, and
otherwise if the flag is set. -/
def isActive (current : UiState) (l : Layer) : Bool := l.flag?.all current.hasFlag

/-- The layers from the highest precedence to the lowest. -/
def descending : List Layer := [selected, disabled, focused, pressed, normal]

end Layer

/-- The style of a layer, if there is one. -/
def style? {α : Type} (s : StateStyles α) : Layer → Option α
  | .normal => s.normal
  | .pressed => s.pressed
  | .focused => s.focused
  | .disabled => s.disabled
  | .selected => s.selected

/-- The styles for a node in some state, from the highest precedence to the lowest. -/
def ranked {α : Type} (s : StateStyles α) (current : UiState) : List α :=
  (Layer.descending.filter (·.isActive current)).filterMap s.style?

/-- What the styles ask for of an attribute in some state, if one of them is about it: the last
request of the highest one that is. -/
def request? (s : StateStyles (List Edit)) (current : UiState) (a : Attribute) :
    Option (Option (Standard.Value a)) :=
  (s.ranked current).findSome? (Edit.lastRequest? a)

section Layers

variable {α : Type} (s : StateStyles α)

/-- The styles are staged from the lowest precedence to the highest. -/
theorem active_eq (current : UiState) : s.active current = (s.ranked current).reverse := by
  have hpressed : current.contains .pressed = current.hasFlag 0 := current.contains_eq_hasFlag rfl
  have hfocused : current.contains .focused = current.hasFlag 1 := current.contains_eq_hasFlag rfl
  have hdisabled : current.contains .disabled = current.hasFlag 2 := current.contains_eq_hasFlag rfl
  have hselected : current.contains .selected = current.hasFlag 3 := current.contains_eq_hasFlag rfl
  have hcons : ∀ {β : Type} (g : β → Option α) (x : β) (xs : List β),
      (x :: xs).filterMap g = (g x).toList ++ xs.filterMap g := by
    intro β g x xs
    cases h : g x <;> simp [h]
  have hascending : Layer.descending.reverse =
      [.normal, .pressed, .focused, .disabled, .selected] := rfl
  -- on both sides every layer adds its style, or nothing
  rw [ranked, List.filterMap_filter, ← List.filterMap_reverse, hascending]
  simp only [active, byState, List.filterMap_filter, hcons, List.filterMap_nil, hpressed,
    hfocused, hdisabled, hselected, Layer.isActive, Layer.flag?, Option.all_none, Option.all_some,
    if_true, style?]
  rfl

/-- The states that have a style are those of the layers with a style and a flag. -/
theorem hasFlag_supported (i : Nat) :
    s.supported.hasFlag i = true ↔ ∃ l : Layer, l.flag? = some i ∧ (s.style? l).isSome = true := by
  have hfold : ∀ (entries : List (UiState × Option α)) (t : UiState),
      (entries.foldl (fun states entry => states ∪ entry.1) t).hasFlag i =
        (t.hasFlag i || entries.any (·.1.hasFlag i)) := by
    intro entries
    induction entries with
    | nil => simp
    | cons x entries ih =>
      intro t
      rw [List.foldl_cons, ih, UiState.hasFlag_union, List.any_cons, Bool.or_assoc]
  have hpressed : UiState.pressed.hasFlag i = decide (0 = i) := UiState.hasFlag_single rfl i
  have hfocused : UiState.focused.hasFlag i = decide (1 = i) := UiState.hasFlag_single rfl i
  have hdisabled : UiState.disabled.hasFlag i = decide (2 = i) := UiState.hasFlag_single rfl i
  have hselected : UiState.selected.hasFlag i = decide (3 = i) := UiState.hasFlag_single rfl i
  have hsupported : s.supported.hasFlag i =
      (s.pressed.isSome && decide (0 = i) || (s.focused.isSome && decide (1 = i) ||
        (s.disabled.isSome && decide (2 = i) || (s.selected.isSome && decide (3 = i))))) := by
    rw [supported, hfold, UiState.hasFlag_normal, Bool.false_or, List.any_filter]
    simp [byState, hpressed, hfocused, hdisabled, hselected]
  rw [hsupported]
  constructor
  · intro h
    simp only [Bool.or_eq_true, Bool.and_eq_true, decide_eq_true_eq] at h
    rcases h with ⟨h, rfl⟩ | ⟨h, rfl⟩ | ⟨h, rfl⟩ | ⟨h, rfl⟩
    · exact ⟨.pressed, rfl, h⟩
    · exact ⟨.focused, rfl, h⟩
    · exact ⟨.disabled, rfl, h⟩
    · exact ⟨.selected, rfl, h⟩
  · rintro ⟨l, hl, hs⟩
    cases l with
    | normal => cases hl
    | pressed => cases hl; simpa [style?] using hs
    | focused => cases hl; simpa [style?] using hs
    | disabled => cases hl; simpa [style?] using hs
    | selected => cases hl; simpa [style?] using hs

/-- On a live node the styles for its state are found, and which states have one is noted. -/
theorem resolve_of_node? {n : NodeHandle} {p : Headless} {node : Headless.Node}
    (h : p.node? n = some node) :
    s.resolve n p = (.ok (node.state, s.active node.state), (p.setSupported n s.supported).2) := by
  have alive : p.isAlive n = true := by
    rw [Headless.isAlive, h]
    rfl
  have hdeclare : StatefulPeer.declareSupported n s.supported p =
      (.ok (), (p.setSupported n s.supported).2) := by
    have hupdate : p.setSupported n s.supported = (.ok (), (p.setSupported n s.supported).2) := by
      simp only [Headless.setSupported, Headless.update, alive, if_true]
    exact hupdate
  have hnode : (p.setSupported n s.supported).2.node? n =
      some { node with supported := s.supported } := by
    rw [Headless.setSupported, Headless.node?_update, if_pos rfl, h]
    rfl
  have hstate : StatefulPeer.stateOf n (p.setSupported n s.supported).2 = .ok node.state := by
    have hread : (p.setSupported n s.supported).2.state n = .ok node.state := by
      rw [Headless.state, hnode]
    exact hread
  simp only [resolve, hdeclare, hstate]

/-- Without the node nothing is found, and nothing is changed. -/
theorem resolve_of_dead {n : NodeHandle} {p : Headless} (dead : p.isAlive n = false) :
    s.resolve n p = (.error (.unknownNode n), p) := by
  have hdeclare : StatefulPeer.declareSupported n s.supported p = (.error (.unknownNode n), p) :=
    Headless.update_of_dead dead fun node => { node with supported := s.supported }
  simp only [resolve, hdeclare]

end Layers

end StateStyles

/-- A burst changes nothing of what is committed. -/
theorem Component.committed_editAll (c : Component) (es : List Edit) (a : Attribute) :
    ((c.editAll es).slot? a).bind (·.committed) = (c.slot? a).bind (·.committed) := by
  cases hlast : Edit.lastRequest? a es with
  | some r =>
    rw [c.slot?_editAll hlast]
    cases c.slot? a <;> rfl
  | none =>
    have hget := c.get?_editAll es a
    rw [hlast] at hget
    rw [slot?_eq_bind, slot?_eq_bind, hget]

namespace StateStyles

/-! ## What applying styles does -/

section Apply

variable (s : StateStyles (List Edit))

/-- Of styles staged one on top of the other, the last one that is about an attribute counts. -/
theorem lastRequest?_flatten (a : Attribute) (styles : List (List Edit)) :
    Edit.lastRequest? a styles.flatten = styles.reverse.findSome? (Edit.lastRequest? a) := by
  induction styles with
  | nil => rfl
  | cons es styles ih =>
    rw [List.flatten_cons, Edit.lastRequest?_append, ih, List.reverse_cons, List.findSome?_append,
      List.findSome?_singleton]

/-- The styles for a state leave a component as one burst does. -/
theorem foldl_active (current : UiState) (c : Component) :
    (s.active current).foldl Component.editAll c = c.editAll (s.active current).flatten := by
  rw [Component.editAll, List.foldl_flatten]
  rfl

/-- The burst asks for what the styles ask for. -/
theorem lastRequest?_active (current : UiState) (a : Attribute) :
    Edit.lastRequest? a (s.active current).flatten = s.request? current a := by
  rw [lastRequest?_flatten, active_eq, List.reverse_reverse, request?]

/-- Nothing is asked for of an attribute that no style for the state is about. -/
theorem request?_eq_none_iff {current : UiState} {a : Attribute} :
    s.request? current a = none ↔
      ∀ l es, l.isActive current = true → s.style? l = some es → ∀ e ∈ es, e.target ≠ a := by
  have hall : ∀ l, l ∈ Layer.descending := by
    intro l
    cases l <;> decide
  simp only [request?, ranked, List.findSome?_eq_none_iff, List.mem_filterMap, List.mem_filter,
    Edit.lastRequest?_eq_none_iff]
  constructor
  · intro h l es active style
    exact h es ⟨l, ⟨hall l, active⟩, style⟩
  · rintro h es ⟨l, ⟨-, active⟩, style⟩
    exact h l es active style

variable {s} {c : Component} {p : Headless}

/-- On a live node the styles for its state are staged, and the peer notes which states have one. -/
theorem apply_of_node? {node : Headless.Node} (h : p.node? c.node = some node) :
    s.apply c p = (.ok node.state, c.editAll (s.active node.state).flatten,
      (p.setSupported c.node s.supported).2) := by
  simp only [apply, s.resolve_of_node? h, foldl_active]

/-- Without the node nothing is done. -/
theorem apply_of_dead (dead : p.isAlive c.node = false) :
    s.apply c p = (.error (.unknownNode c.node), c, p) := by
  simp only [apply, s.resolve_of_dead dead]

/-- A peer that has noted for which states a node has styles, and is the same in all else. -/
structure Declared (n : NodeHandle) (states : UiState) (p q : Headless) : Prop where
  node? (m : NodeHandle) : q.node? m =
    if m = n then (p.node? m).map fun node => { node with supported := states } else p.node? m
  journal : q.journal = p.journal
  last : q.last = p.last

theorem declared_setSupported (n : NodeHandle) (states : UiState) (p : Headless) :
    Declared n states p (p.setSupported n states).2 :=
  ⟨p.node?_update n _, p.journal_update n _, p.last_update n _⟩

/-- What styles leave of a component when they are applied in some state. -/
structure Styled (s : StateStyles (List Edit)) (current : UiState) (c d : Component) : Prop where
  node : d.node = c.node
  /-- What is committed stays so. -/
  committed (a : Attribute) :
    (d.slot? a).bind (·.committed) = (c.slot? a).bind (·.committed)
  /-- What the styles ask for of an attribute waits in its slot. -/
  staged {a : Attribute} {r : Option (Standard.Value a)} (h : s.request? current a = some r) :
    ∃ slot, d.slots.slots.get? a = some ⟨Standard.setKind a, slot⟩ ∧
      slot.staged = some (.ofOption r)
  /-- The slot of an attribute that no style for the state is about stays as it is. -/
  untouched {a : Attribute}
    (h : ∀ l es, l.isActive current = true → s.style? l = some es → ∀ e ∈ es, e.target ≠ a) :
    d.slots.slots.get? a = c.slots.slots.get? a

theorem styled_editAll (s : StateStyles (List Edit)) (current : UiState) (c : Component) :
    s.Styled current c (c.editAll (s.active current).flatten) where
  node := c.node_editAll _
  committed := c.committed_editAll _
  staged h := by
    rw [← lastRequest?_active] at h
    exact ⟨_, Component.slot?_eq_some_iff.1 (c.slot?_editAll h), rfl⟩
  untouched {a} h := by
    have hslot := c.get?_editAll (s.active current).flatten a
    rw [lastRequest?_active, s.request?_eq_none_iff.2 h] at hslot
    exact hslot

/-- Styles are applied to a component whose node is alive, and to no other. Then the peer notes the
states that have a style, and changes in nothing else, so it gets no call. And for each attribute
that a style for the node's state is about, the last request of the highest such style waits in the
slot; what is committed stays so, and all other slots stay as they are. -/
theorem apply_precedence (s : StateStyles (List Edit)) (c : Component) (p : Headless) :
    (p.isAlive c.node = false → s.apply c p = (.error (.unknownNode c.node), c, p)) ∧
    (∀ node, p.node? c.node = some node →
      ∃ d q, s.apply c p = (.ok node.state, d, q) ∧ Declared c.node s.supported p q ∧
        s.Styled node.state c d) ∧
    ∀ i, s.supported.hasFlag i = true ↔
      ∃ l : Layer, l.flag? = some i ∧ (s.style? l).isSome = true := by
  refine ⟨apply_of_dead, ?_, s.hasFlag_supported⟩
  intro node h
  exact ⟨_, _, apply_of_node? h, declared_setSupported _ _ p, s.styled_editAll node.state c⟩

/-- A node is pressed and disabled, and has a flag without a meaning. Its width is that of the
pressed style, for the focused one does not count; its height is unset by the disabled style, which
goes over the pressed one. Once the node is removed, nothing is staged. -/
theorem apply_precedence_pressed_and_disabled :
    let p := ({} : Headless).createNode
    let q := (p.2.setState p.1 ⟨69⟩).2
    let c := (((Component.mk p.1 ∅).set .width (.vp 1)).commit q).2.1
    let s : StateStyles (List Edit) :=
      { normal := some [.set .width (.vp 2), .set .opacity (.value 1)]
        pressed := some [.set .height (.vp 3), .set .width (.vp 4), .set .width (.vp 5)]
        focused := some [.set .width (.vp 6)]
        disabled := some [.unset .height] }
    (∃ d r, s.apply c q = (.ok ⟨69⟩, d, r) ∧ r.journal = q.journal ∧
      r.supported? p.1 = some ⟨7⟩ ∧
      (∃ slot, d.slots.slots.get? .width = some ⟨.keyed .width, slot⟩ ∧
        slot.staged = some (.value (Length.vp 5))) ∧
      (∃ slot, d.slots.slots.get? .height = some ⟨.keyed .height, slot⟩ ∧
        slot.staged = some .unset) ∧
      d.slots.slots.get? .margin = none) ∧
    s.apply c (q.removeNode p.1).2 = (.error (.unknownNode p.1), c, (q.removeNode p.1).2) := by
  intro p q c s
  have happly := (apply_precedence s c q).2.1 ⟨∅, .normal, ⟨69⟩⟩ rfl
  rcases happly with ⟨d, r, hd, hr, hstyled⟩
  have hwidth : s.request? ⟨69⟩ .width = some (some (Length.vp 5)) := rfl
  have hheight : s.request? ⟨69⟩ .height = some none := rfl
  refine ⟨⟨d, r, hd, hr.journal, ?_, hstyled.staged hwidth, hstyled.staged hheight, ?_⟩,
    (apply_precedence s c (q.removeNode p.1).2).1 rfl⟩
  · have hsupported : s.supported = ⟨7⟩ := by decide +kernel
    have hnode : p.1 = c.node := rfl
    rw [Headless.supported?, hr.node?, if_pos hnode, hsupported]
    rfl
  · rw [hstyled.untouched (s.request?_eq_none_iff.1 rfl)]
    rfl

end Apply

end StateStyles

end Reconciler
