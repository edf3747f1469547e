import Reconciler.Component

/-!
# Runs of a component

The states that a component and its peer come to when the component is edited and committed, in any
order and any number of times, and others use the peer in between.
-/

namespace Reconciler

variable {π : Type} [Peer π]

/-- Runs of a new component on a node of a peer. A run ends with a component and a state of the
peer, after the edits that are listed. Between two operations of the component, others may change
the peer in the ways that `outside` allows. -/
inductive Component.Run (outside : π → π → Prop) (node : NodeHandle) (origin : π) :
    List Edit → Component → π → Prop where
  -- The component is new.
  | start : Run outside node origin [] { node := node } origin
  -- An attribute is set or unset.
  | edit {es : List Edit} {c : Component} {p : π} (e : Edit)
      (run : Run outside node origin es c p) : Run outside node origin (es ++ [e]) (c.edit e) p
  -- The component is committed.
  | commit {es : List Edit} {c : Component} {p : π} (run : Run outside node origin es c p) :
      Run outside node origin es (c.commit p).2.1 (c.commit p).2.2
  -- Others use the peer.
  | outside {es : List Edit} {c : Component} {p q : π} (run : Run outside node origin es c p)
      (h : outside p q) : Run outside node origin es c q

namespace Component.Run

variable {outside : π → π → Prop} {node : NodeHandle} {origin : π}

/-- A component stays on its node. -/
theorem node_eq {es : List Edit} {c : Component} {p : π} (run : Run outside node origin es c p) :
    c.node = node := by
  induction run with
  | start => rfl
  | edit e _ ih => exact (node_edit _ e).trans ih
  | commit _ ih => exact ih
  | outside _ _ ih => exact ih

/-- A burst is a run of edits. -/
theorem editAll {es : List Edit} {c : Component} {p : π} (run : Run outside node origin es c p)
    (fs : List Edit) : Run outside node origin (es ++ fs) (c.editAll fs) p := by
  induction fs generalizing es c with
  | nil =>
    rw [List.append_nil]
    exact run
  | cons f fs ih =>
    have hrest := ih (run.edit f)
    rwa [List.append_assoc] at hrest

end Component.Run

end Reconciler
