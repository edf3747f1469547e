import Reconciler.Component
import Reconciler.Peer.Headless

/-!
# Styles by interaction state

A component may have a style for its normal state and one for each interaction state. Applying them
first declares to the peer which states have a style, then asks it for the node's state, and then
stages the normal style and on top of it those of the states that the node is in. Later styles go
over earlier ones, so selected goes before disabled, disabled before focused, focused before
pressed, and all of them before normal. Nothing is committed.

What a style is, is left open here, save for `apply`, which takes a style for the list of edits that
it stages. A closure that stages the same edits on every component is such a list; one that looks at
the component first, or that commits it, is not.
-/

namespace Reconciler

/-- A style for each interaction state, where there is one. -/
structure StateStyles (α : Type) where
  normal : Option α := none
  pressed : Option α := none
  focused : Option α := none
  disabled : Option α := none
  selected : Option α := none
deriving Inhabited

namespace StateStyles

variable {α : Type}

/-- The styles of the states other than normal, each with its state, in the order of application. -/
def byState (s : StateStyles α) : List (UiState × Option α) :=
  [(.pressed, s.pressed), (.focused, s.focused), (.disabled, s.disabled), (.selected, s.selected)]

/-- The states that have a style. The normal state is none of them. -/
def supported (s : StateStyles α) : UiState :=
  (s.byState.filter (·.2.isSome)).foldl (fun states entry => states ∪ entry.1) .normal

/-- The styles for a node in some states, in the order of application. -/
def active (s : StateStyles α) (current : UiState) : List α :=
  s.normal.toList ++ (s.byState.filter fun entry => current.contains entry.1).filterMap (·.2)

/-- Declares to the peer which states have a style, and finds the node's state and the styles for
it. -/
def resolve {π : Type} [StatefulPeer π] (s : StateStyles α) (node : NodeHandle) (peer : π) :
    Except PeerError (UiState × List α) × π :=
  match StatefulPeer.declareSupported node s.supported peer with
  | (.error e, peer) => (.error e, peer)
  | (.ok (), peer) =>
    match StatefulPeer.stateOf node peer with
    | .error e => (.error e, peer)
    | .ok current => (.ok (current, s.active current), peer)

/-- Stages the styles for the state that the component's node is in, and tells the state. -/
def apply {π : Type} [StatefulPeer π] (s : StateStyles (List Edit)) (c : Component) (peer : π) :
    Except PeerError UiState × Component × π :=
  match s.resolve c.node peer with
  | (.error e, peer) => (.error e, c, peer)
  | (.ok (current, styles), peer) => (.ok current, styles.foldl Component.editAll c, peer)

/-- A description: whether there is a normal style, and the states that have one. -/
def describe (s : StateStyles α) : String :=
  "StateStyles \x7b normal: " ++ toString s.normal.isSome ++ ", supported: " ++
    s.supported.describe ++ " \x7d"

end StateStyles

end Reconciler
