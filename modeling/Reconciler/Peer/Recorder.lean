import Reconciler.Peer.Basic

/-!
# The recorder

A peer that renders nothing and keeps every call, for watching what is sent. It can be told to fail
on an attribute, or to panic on it. A call is kept before either happens, so that an attempt can be
seen even when it came to nothing.
-/

namespace Reconciler

/-- A peer that keeps the calls it gets, oldest first, and fails on purpose. -/
structure Recorder where
  calls : List Call := []
  /-- The attributes whose calls fail. -/
  failing : List Attribute := []
  /-- The attributes whose calls panic. -/
  panicking : List Attribute := []
deriving Repr, Inhabited

namespace Recorder

/-- Makes every call for an attribute fail. -/
def failOn (r : Recorder) (a : Attribute) : Recorder := { r with failing := a :: r.failing }

/-- Makes every call for an attribute panic. -/
def panicOn (r : Recorder) (a : Attribute) : Recorder := { r with panicking := a :: r.panicking }

/-- Takes back all failures and panics. -/
def clearFailures (r : Recorder) : Recorder := { r with failing := [], panicking := [] }

/-- The calls so far, and the recorder without them. -/
def takeCalls (r : Recorder) : List Call × Recorder := (r.calls, { r with calls := [] })

/-- How many calls wrote an attribute. -/
def applies (r : Recorder) (a : Attribute) : Nat :=
  r.calls.countP fun c => c.isApply && c.target == a

/-- How many calls reset an attribute. -/
def resets (r : Recorder) (a : Attribute) : Nat :=
  r.calls.countP fun c => !c.isApply && c.target == a

/-- The arguments of the latest call that wrote an attribute. -/
def lastArgs? (r : Recorder) (a : Attribute) : Option (List WireValue) :=
  r.calls.reverse.findSome? fun c => if c.target = a then c.args? else none

/-- How a call for an attribute ends. A panic goes before a failure. -/
def outcome (r : Recorder) (a : Attribute) : Outcome PeerError Unit :=
  if a ∈ r.panicking then .panicked (.text ("injected panic while writing `" ++ a.name ++ "`"))
  else if a ∈ r.failing then .error (.rejected a "injected failure")
  else .ok ()

instance : Peer Recorder where
  send c r := (r.outcome c.target, { r with calls := r.calls ++ [c] })

end Recorder

end Reconciler
