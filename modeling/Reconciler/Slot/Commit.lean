import Reconciler.Slot.Basic
import Reconciler.Slot.Policy

/-!
# Committing a slot

A commit takes the request that waits in a slot and brings it to the peer.

* Nothing waits: nothing happens.
* The default is asked for: the committed value is forgotten, and the attribute is reset.
* A value is asked for: it is compared with the committed one, and applied if it changed. It becomes
  the committed value, unless the comparison or the peer failed.

The request is gone afterwards in every case, so a change that failed is not tried again.
-/

namespace Reconciler

/-- What a commit did. -/
inductive Commit where
  /-- Nothing was staged. -/
  | idle
  /-- The staged value equals the committed one, and the peer was not called. -/
  | unchanged
  /-- The staged value was brought to the peer. -/
  | applied
  /-- The attribute was reset, and its slot has no use any more. -/
  | expired
deriving DecidableEq, Repr, Inhabited

/-- Whether a commit left its slot without use. -/
def Commit.isExpired (c : Commit) : Bool := c == .expired

/-- Why a commit failed. -/
inductive CommitError where
  /-- The peer failed to apply a changed value. -/
  | apply (target : Attribute) (source : PeerError)
  /-- The peer failed to reset an attribute. -/
  | reset (target : Attribute) (source : PeerError)
  /-- The comparison or the peer panicked. -/
  | panicked (target : Attribute) (message : String)
deriving DecidableEq, Repr, Inhabited

namespace CommitError

/-- The attribute whose commit failed. -/
def target : CommitError → Attribute
  | apply a _ => a
  | reset a _ => a
  | panicked a _ => a

/-- The peer's error behind a failure, if there is one. -/
def source? : CommitError → Option PeerError
  | apply _ e => some e
  | reset _ e => some e
  | panicked _ _ => none

/-- The message of a failure. -/
def message : CommitError → String
  | apply a e => "failed to apply `" ++ a.name ++ "`: " ++ e.message
  | reset a e => "failed to reset `" ++ a.name ++ "`: " ++ e.message
  | panicked a m => "commit of `" ++ a.name ++ "` panicked: " ++ m

instance : ToString CommitError := ⟨message⟩

/-- The failure that a caught panic is reported as. -/
def ofPanic (a : Attribute) (p : Panic) : CommitError :=
  panicked a (p.message?.getD "unknown panic payload")

end CommitError

namespace Slot

variable {V π : Type} [Peer π]

/-- Commits a slot against a node: how it ends, the slot, and the peer afterwards. -/
def commit (p : Policy V) (node : NodeHandle) (s : Slot V) (peer : π) :
    Outcome CommitError Commit × Slot V × π :=
  match s.staged with
  | none => (.ok .idle, s, peer)
  | some .unset =>
    match (p.reset node).run peer with
    | (.ok (), peer) => (.ok .expired, {}, peer)
    | (.error e, peer) => (.error (.reset p.target e), {}, peer)
    | (.panicked q, peer) => (.panicked q, {}, peer)
  | some (.value v) =>
    match p.verdict v s.committed with
    | .unchanged => (.ok .unchanged, { committed := some v }, peer)
    | .panicked q => (.panicked q, { committed := s.committed }, peer)
    | .changed =>
      match (p.apply node v).run peer with
      | (.ok (), peer) => (.ok .applied, { committed := some v }, peer)
      | (.error e, peer) => (.error (.apply p.target e), { committed := s.committed }, peer)
      | (.panicked q, peer) => (.panicked q, { committed := s.committed }, peer)

end Slot

end Reconciler
