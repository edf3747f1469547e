import Reconciler.Attribute
import Reconciler.Wire

/-!
# Peers

A peer is the native module that renders nodes. It is called with a node, an attribute and, to write
the attribute, a list of arguments; it answers that all is well, or with an error, or it panics. A
peer is modelled by its state and the answer that each call gets in it.

A panic is caught, looked at for a message, and gone. What it carries is data here: to let go of it
does nothing, and in particular it cannot panic again, as the destructor of a value could.
-/

namespace Reconciler

/-- An opaque reference to a native node. -/
structure NodeHandle where
  raw : UInt64
deriving DecidableEq, Repr, Inhabited

namespace NodeHandle

/-- The text of a handle. -/
def text (n : NodeHandle) : String := s!"#{n.raw.toNat}"

instance : ToString NodeHandle := ⟨text⟩

end NodeHandle

/-- A call that crosses the boundary to a peer. -/
inductive Call where
  /-- Writes the arguments to an attribute of a node. -/
  | apply (node : NodeHandle) (target : Attribute) (args : List WireValue)
  /-- Restores the built-in default of an attribute of a node. -/
  | reset (node : NodeHandle) (target : Attribute)
deriving Repr, Inhabited

namespace Call

/-- The node that a call is about. -/
def node : Call → NodeHandle
  | apply n _ _ => n
  | reset n _ => n

/-- The attribute that a call is about. -/
def target : Call → Attribute
  | apply _ a _ => a
  | reset _ a => a

/-- The arguments of a call that writes. -/
def args? : Call → Option (List WireValue)
  | apply _ _ xs => some xs
  | reset _ _ => none

/-- Whether a call writes an attribute. -/
def isApply : Call → Bool
  | apply _ _ _ => true
  | reset _ _ => false

end Call

/-- Why a peer did not do what it was asked to. -/
inductive PeerError where
  /-- It refused the arguments for an attribute. -/
  | rejected (target : Attribute) (reason : String)
  /-- The handle is that of no live node. -/
  | unknownNode (node : NodeHandle)
  /-- Anything else. -/
  | other (text : String)
deriving DecidableEq, Repr, Inhabited

namespace PeerError

/-- The message of an error. -/
def message : PeerError → String
  | rejected a reason => "peer rejected `" ++ a.name ++ "`: " ++ reason
  | unknownNode n => "unknown native node " ++ n.text
  | other text => text

instance : ToString PeerError := ⟨message⟩

end PeerError

/-- What a panic carries to whoever catches it. -/
inductive Panic where
  /-- A message. -/
  | text (message : String)
  /-- Something that is not text. -/
  | mute
deriving DecidableEq, Repr, Inhabited

/-- The message of a panic, if it carries one. -/
def Panic.message? : Panic → Option String
  | text message => some message
  | mute => none

/-- How a computation that can fail, and can panic, ends. -/
inductive Outcome (ε α : Type) where
  | ok (value : α)
  | error (e : ε)
  | panicked (p : Panic)
deriving DecidableEq, Repr

/-- States of a peer, and its answer to a call in each of them. -/
class Peer (π : Type) where
  send : Call → π → Outcome PeerError Unit × π

end Reconciler
