import Reconciler.Table.Basic

/-!
# The commit pass

A pass commits every slot of a table against one node, in table order, and takes away the slots that
have no use any more. A slot that fails or panics is reported, and the pass goes on: the outcome of
one slot is nothing to the others. A slot is dropped when it expired, and also when it failed and is
vacant. What a pass writes to a log is left out; the report says as much.
-/

namespace Reconciler

/-- What a pass did. -/
structure Report where
  /-- How many slots brought their value to the peer. -/
  applied : Nat := 0
  /-- How many slots had a value that equals the committed one. -/
  unchanged : Nat := 0
  /-- The attributes whose slots were dropped. -/
  expired : List Attribute := []
  /-- The failures, one for each slot that failed. -/
  errors : List CommitError := []
deriving DecidableEq, Repr, Inhabited

/-- Whether no slot failed. -/
def Report.isClean (r : Report) : Bool := r.errors.isEmpty

variable {κ π : Type} [Catalog κ] [Peer π]

/-- How the commit of one slot ended, and the slot afterwards. -/
structure Settlement (κ : Type) [Catalog κ] where
  result : Except CommitError Commit
  entry : Entry κ

namespace Settlement

/-- Whether the slot is taken out of its table: it expired, or it failed and is vacant. -/
def drops (s : Settlement κ) : Bool :=
  match s.result with
  | .ok c => c.isExpired
  | .error _ => s.entry.slot.isVacant

/-- Whether the slot brought its value to the peer. -/
def isApplied (s : Settlement κ) : Bool :=
  match s.result with
  | .ok c => c == .applied
  | .error _ => false

/-- Whether the slot had a value that equals the committed one. -/
def isUnchanged (s : Settlement κ) : Bool :=
  match s.result with
  | .ok c => c == .unchanged
  | .error _ => false

/-- The failure, if there was one. -/
def error? (s : Settlement κ) : Option CommitError :=
  match s.result with
  | .ok _ => none
  | .error e => some e

end Settlement

/-- Commits one slot, and turns a panic into a failure. -/
def Entry.commit (node : NodeHandle) (e : Entry κ) (peer : π) : Settlement κ × π :=
  match e.slot.commit e.policy node peer with
  | (.ok c, s, peer) => (⟨.ok c, ⟨e.kind, s⟩⟩, peer)
  | (.error err, s, peer) => (⟨.error err, ⟨e.kind, s⟩⟩, peer)
  | (.panicked p, s, peer) => (⟨.error (.ofPanic e.target p), ⟨e.kind, s⟩⟩, peer)

/-- The report of the slots that a pass went through. -/
def Report.ofSettled (settled : List (Attribute × Settlement κ)) : Report where
  applied := settled.countP (·.2.isApplied)
  unchanged := settled.countP (·.2.isUnchanged)
  expired := (settled.filter (·.2.drops)).map (·.1)
  errors := settled.filterMap (·.2.error?)

namespace Table

/-- Commits slots one after the other, each against the peer that the one before left. -/
def settle (node : NodeHandle) :
    List (Attribute × Entry κ) → π → List (Attribute × Settlement κ) × π
  | [], peer => ([], peer)
  | (a, e) :: entries, peer =>
    let (s, peer) := e.commit node peer
    let (settled, peer) := settle node entries peer
    ((a, s) :: settled, peer)

/-- Puts one slot back after its commit, or takes it out. -/
def absorbOne (t : Table κ) (a : Attribute) (s : Settlement κ) : Table κ :=
  { slots := t.slots.put a (if s.drops then none else some s.entry) }

/-- Puts the slots back after their commits. -/
def absorb (t : Table κ) (settled : List (Attribute × Settlement κ)) : Table κ :=
  settled.foldl (fun t s => t.absorbOne s.1 s.2) t

/-- Commits every slot of a table against a node: the report, the table, and the peer afterwards. -/
def commit (t : Table κ) (node : NodeHandle) (peer : π) : Report × Table κ × π :=
  let (settled, peer) := settle node t.slots.entries peer
  (.ofSettled settled, t.absorb settled, peer)

/-! ## The slots after a pass -/

/-- Every slot is settled once, in order. -/
theorem map_fst_settle (node : NodeHandle) (entries : List (Attribute × Entry κ)) (peer : π) :
    (settle node entries peer).1.map (·.1) = entries.map (·.1) := by
  induction entries generalizing peer with
  | nil => rfl
  | cons e entries ih => simp [settle, ih]

theorem get?_absorbOne (t : Table κ) (a : Attribute) (s : Settlement κ) (b : Attribute) :
    (t.absorbOne a s).slots.get? b =
      if a = b then (if s.drops then none else some s.entry) else t.slots.get? b :=
  AttributeMap.get?_put _ _ _ _

/-- A slot that was not settled stays as it was. -/
theorem get?_absorb_of_not_mem (t : Table κ) (settled : List (Attribute × Settlement κ))
    (b : Attribute) (h : b ∉ settled.map (·.1)) :
    (t.absorb settled).slots.get? b = t.slots.get? b := by
  induction settled generalizing t with
  | nil => rfl
  | cons s settled ih =>
    simp only [List.map_cons, List.mem_cons, not_or] at h
    have others := ih (t.absorbOne s.1 s.2) h.2
    rw [get?_absorbOne, if_neg (Ne.symm h.1)] at others
    exact others

/-- A slot that was settled once is as its settlement says. -/
theorem get?_absorb_of_mem (t : Table κ) {settled : List (Attribute × Settlement κ)}
    (once : (settled.map (·.1)).Nodup) {a : Attribute} {s : Settlement κ}
    (h : (a, s) ∈ settled) :
    (t.absorb settled).slots.get? a = if s.drops then none else some s.entry := by
  induction settled generalizing t with
  | nil => cases h
  | cons x settled ih =>
    simp only [List.map_cons, List.nodup_cons] at once
    rcases List.mem_cons.1 h with rfl | h
    · -- the slots settled after it are other ones
      have := get?_absorb_of_not_mem (t.absorbOne a s) settled a once.1
      rw [get?_absorbOne, if_pos rfl] at this
      exact this
    · exact ih (t.absorbOne x.1 x.2) once.2 h

end Table

end Reconciler
