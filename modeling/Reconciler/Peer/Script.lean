import Reconciler.Peer.Basic

/-!
# Scripts

What an attribute does to a peer when it is applied or reset: a finite program that makes calls,
sees the errors they end with, and ends with an error or without one. A script fixes nothing about
the peer; `run` plays it against any. A peer that panics ends the script at once.
-/

namespace Reconciler

/-- A program of calls to a peer. -/
inductive Script where
  /-- Ends, with an error or without one. -/
  | done (result : Except PeerError Unit)
  /-- Ends in a panic. -/
  | panic (p : Panic)
  /-- Makes a call and goes on with what it ended with. -/
  | call (c : Call) (next : Except PeerError Unit → Script)

namespace Script

/-- The script of one call, which ends as the call does. -/
def single (c : Call) : Script := call c done

/-- The script that makes no call and fails. -/
def fail (e : PeerError) : Script := done (.error e)

variable {π : Type} [Peer π]

/-- Plays a script against a peer: how it ends, and the peer afterwards. -/
def run : Script → π → Outcome PeerError Unit × π
  | done (.ok ()), peer => (.ok (), peer)
  | done (.error e), peer => (.error e, peer)
  | panic p, peer => (.panicked p, peer)
  | call c next, peer =>
    match Peer.send c peer with
    | (.ok (), peer) => (next (.ok ())).run peer
    | (.error e, peer) => (next (.error e)).run peer
    | (.panicked p, peer) => (.panicked p, peer)

/-- Playing a single call is sending it. -/
theorem run_single (c : Call) (peer : π) : (single c).run peer = Peer.send c peer := by
  simp only [single, run]
  split <;> simp_all

/-- Every call that a script can make has a property, whatever the calls before it end with. -/
def Calls (P : Call → Prop) : Script → Prop
  | done _ => True
  | panic _ => True
  | call c next => P c ∧ ∀ r, (next r).Calls P

end Script

end Reconciler
