import Reconciler.AttributeMap
import Reconciler.Peer.Basic
import Reconciler.UiState

/-!
# The headless peer

A peer that renders into memory. Every node keeps the arguments last written to each of its
attributes, its interaction state, and the states that it has styles for; a journal keeps every call
in order, also those that failed. Handles count up in a word, so none is given twice before the word
is used up.
-/

namespace Reconciler

/-- Peers that also keep the interaction states of their nodes. -/
class StatefulPeer (π : Type) extends Peer π where
  /-- Declares the states for which a node has styles. -/
  declareSupported : NodeHandle → UiState → π → Except PeerError Unit × π
  /-- The state that a node is in. -/
  stateOf : NodeHandle → π → Except PeerError UiState

namespace Headless

/-- A native node in memory. -/
structure Node where
  /-- The arguments last written to each attribute since it was last reset. -/
  attributes : AttributeMap (List WireValue) := ∅
  /-- The interaction states that it has styles for. -/
  supported : UiState := .normal
  /-- The interaction state that it is in. -/
  state : UiState := .normal
deriving Inhabited

end Headless

/-- A peer that renders into memory. -/
structure Headless where
  /-- The live nodes by their handles. No handle occurs twice. -/
  nodes : List (NodeHandle × Headless.Node) := []
  /-- The handle of the node made last. -/
  last : UInt64 := 0
  /-- The calls so far, oldest first. -/
  journal : List Call := []
deriving Inhabited

namespace Headless

/-- A live node. -/
def node? (p : Headless) (n : NodeHandle) : Option Node :=
  (p.nodes.find? (·.1 == n)).map (·.2)

/-- Whether a handle is that of a live node. -/
def isAlive (p : Headless) (n : NodeHandle) : Bool := (p.node? n).isSome

/-- Makes a node. It has no attributes and is in the normal state. -/
def createNode (p : Headless) : NodeHandle × Headless :=
  let handle : NodeHandle := ⟨p.last + 1⟩
  (handle,
    { p with nodes := (handle, {}) :: p.nodes.filter (·.1 != handle), last := p.last + 1 })

/-- Takes a node away, and tells whether there was one. -/
def removeNode (p : Headless) (n : NodeHandle) : Bool × Headless :=
  (p.isAlive n, { p with nodes := p.nodes.filter (·.1 != n) })

/-- Changes a live node, or fails when there is none. -/
def update (p : Headless) (n : NodeHandle) (f : Node → Node) : Except PeerError Unit × Headless :=
  if p.isAlive n then
    (.ok (), { p with nodes := p.nodes.map fun m => if m.1 = n then (m.1, f m.2) else m })
  else (.error (.unknownNode n), p)

/-- The arguments last written to an attribute of a node, if it was not reset since. -/
def attribute? (p : Headless) (n : NodeHandle) (a : Attribute) : Option (List WireValue) :=
  (p.node? n).bind (·.attributes.get? a)

/-- The attributes of a node that were written and not reset since, in table order. -/
def attributes (p : Headless) (n : NodeHandle) : List Attribute :=
  ((p.node? n).map (·.attributes.keys)).getD []

/-- The calls so far, and the peer without them. -/
def takeJournal (p : Headless) : List Call × Headless := (p.journal, { p with journal := [] })

/-- Moves a node into an interaction state, as the platform does on input. -/
def setState (p : Headless) (n : NodeHandle) (s : UiState) : Except PeerError Unit × Headless :=
  p.update n fun node => { node with state := s }

/-- Declares the states for which a node has styles. -/
def setSupported (p : Headless) (n : NodeHandle) (s : UiState) :
    Except PeerError Unit × Headless :=
  p.update n fun node => { node with supported := s }

/-- The interaction state of a node. -/
def state (p : Headless) (n : NodeHandle) : Except PeerError UiState :=
  match p.node? n with
  | some node => .ok node.state
  | none => .error (.unknownNode n)

/-- The states for which a node has styles. -/
def supported? (p : Headless) (n : NodeHandle) : Option UiState := (p.node? n).map (·.supported)

/-- What a call changes on its node. -/
def render : Call → Node → Node
  | .apply _ a args, node => { node with attributes := node.attributes.insert a args }
  | .reset _ a, node => { node with attributes := node.attributes.erase a }

/-- Takes a call: the journal gets it first, and then its node is changed, if there is one. -/
def receive (c : Call) (p : Headless) : Except PeerError Unit × Headless :=
  { p with journal := p.journal ++ [c] }.update c.node (render c)

/-! ## The nodes after each operation -/

theorem find?_filter_ne {β : Type} (ns : List (NodeHandle × β)) (n m : NodeHandle) :
    (ns.filter (·.1 != m)).find? (·.1 == n) =
      if n = m then none else ns.find? (·.1 == n) := by
  induction ns with
  | nil => simp
  | cons x ns ih =>
    by_cases hm : x.1 = m <;> by_cases hn : x.1 = n <;> grind

/-- A node made is as new, and the others stay as they were. -/
theorem node?_createNode (p : Headless) (n : NodeHandle) :
    p.createNode.2.node? n = if n = p.createNode.1 then some {} else p.node? n := by
  unfold node? createNode
  simp only [List.find?_cons, find?_filter_ne]
  by_cases h : n = ⟨p.last + 1⟩
  · simp [h]
  · have apart : ((⟨p.last + 1⟩ : NodeHandle) == n) = false := by simpa using Ne.symm h
    simp [apart, h]

/-- A node removed is gone, and the others stay as they were. -/
theorem node?_removeNode (p : Headless) (n m : NodeHandle) :
    (p.removeNode m).2.node? n = if n = m then none else p.node? n := by
  unfold node? removeNode
  simp only [find?_filter_ne]
  split <;> simp

/-- An update changes its own node alone, and only if there is one. -/
theorem node?_update (p : Headless) (m : NodeHandle) (f : Node → Node) (n : NodeHandle) :
    (p.update m f).2.node? n = if n = m then (p.node? n).map f else p.node? n := by
  have mapped : ∀ ns : List (NodeHandle × Node),
      ((ns.map fun x => if x.1 = m then (x.1, f x.2) else x).find? (·.1 == n)).map (·.2) =
        if n = m then ((ns.find? (·.1 == n)).map (·.2)).map f
        else (ns.find? (·.1 == n)).map (·.2) := by
    intro ns
    induction ns with
    | nil => simp
    | cons x ns ih =>
      by_cases hm : x.1 = m <;> by_cases hn : x.1 = n <;> grind
  unfold update
  by_cases alive : p.isAlive m
  · simp only [alive, if_true]
    exact mapped p.nodes
  · -- there is no such node, so mapping over it is mapping over nothing
    simp only [alive]
    by_cases h : n = m
    · subst h
      have gone : p.node? n = none := by simpa [isAlive] using alive
      simp [gone]
    · simp [h]

theorem journal_update (p : Headless) (n : NodeHandle) (f : Node → Node) :
    (p.update n f).2.journal = p.journal := by
  unfold update
  split <;> rfl

/-- Every call is kept, whether it fails or not. -/
theorem journal_receive (c : Call) (p : Headless) : (p.receive c).2.journal = p.journal ++ [c] :=
  journal_update _ _ _

/-- A call changes its own node alone. -/
theorem node?_receive (c : Call) (p : Headless) (n : NodeHandle) :
    (p.receive c).2.node? n = if n = c.node then (p.node? n).map (render c) else p.node? n :=
  node?_update _ _ _ _

/-- A call fails exactly when its node is not alive. -/
theorem receive_eq_ok_iff (c : Call) (p : Headless) :
    (p.receive c).1 = .ok () ↔ p.isAlive c.node = true := by
  have : ({ p with journal := p.journal ++ [c] } : Headless).isAlive c.node = p.isAlive c.node :=
    rfl
  unfold receive update
  rw [this]
  by_cases alive : p.isAlive c.node <;> simp [alive]

instance : StatefulPeer Headless where
  send c p :=
    match p.receive c with
    | (.ok (), p) => (.ok (), p)
    | (.error e, p) => (.error e, p)
  declareSupported n s p := p.setSupported n s
  stateOf n p := p.state n

end Headless

end Reconciler
