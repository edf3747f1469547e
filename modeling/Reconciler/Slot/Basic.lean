/-!
# Slots

A slot holds what is known of one attribute of one node: the request that waits for the next commit,
and the value that was last brought to the peer. A request waits alone. Staging another one replaces
it, and touches neither the committed value nor the peer.
-/

namespace Reconciler

/-- A request that waits for the next commit. -/
inductive Staged (V : Type) where
  /-- To bring a value to the peer. -/
  | value (v : V)
  /-- To go back to the attribute's default. -/
  | unset
deriving DecidableEq, Repr

namespace Staged

variable {V : Type}

/-- A value is a request for it, and nothing is a request for the default. -/
def ofOption : Option V → Staged V
  | some v => value v
  | none => unset

/-- The value that is asked for. -/
def value? : Staged V → Option V
  | value v => some v
  | unset => none

end Staged

/-- The request that waits for the next commit, and the value last brought to the peer. -/
structure Slot (V : Type) where
  staged : Option (Staged V) := none
  committed : Option V := none
deriving DecidableEq, Repr

namespace Slot

variable {V : Type}

/-- A slot in which a request waits and nothing is committed. -/
def create (v : Option V) : Slot V := { staged := some (.ofOption v) }

/-- Replaces the request that waits. -/
def stage (s : Slot V) (v : Option V) : Slot V := { s with staged := some (.ofOption v) }

/-- Whether nothing waits and nothing is committed. -/
def isVacant (s : Slot V) : Bool := s.staged.isNone && s.committed.isNone

end Slot

end Reconciler
