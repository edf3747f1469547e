import Reconciler.AttributeMap
import Reconciler.Slot.Commit

/-!
# Slot tables

The slots of one component, one for each attribute that has a value of its own. The slots of a table
may hold values of different types: a *catalog* gives each *kind* of slot its type of values and its
policy. A slot is kept under the attribute of its policy, and a table keeps one slot for an
attribute at a time. When a kind is staged where a slot of another kind is, a new slot takes its
place.
-/

namespace Reconciler

/-- A family of slot kinds, each with its type of values and its policy. -/
class Catalog (κ : Type) where
  Value : κ → Type
  policy : (k : κ) → Policy (Value k)

/-- Two catalogs side by side. -/
instance {κ ι : Type} [Catalog κ] [Catalog ι] : Catalog (κ ⊕ ι) where
  Value
    | .inl k => Catalog.Value k
    | .inr k => Catalog.Value k
  policy
    | .inl k => Catalog.policy k
    | .inr k => Catalog.policy k

/-- A slot together with its kind. -/
structure Entry (κ : Type) [Catalog κ] where
  kind : κ
  slot : Slot (Catalog.Value kind)

namespace Entry

variable {κ : Type} [Catalog κ]

/-- The policy of a slot. -/
def policy (e : Entry κ) : Policy (Catalog.Value e.kind) := Catalog.policy e.kind

/-- The attribute of a slot. -/
def target (e : Entry κ) : Attribute := e.policy.target

/-- A new slot of a kind, in which a request waits. -/
def create (k : κ) (v : Option (Catalog.Value k)) : Entry κ := ⟨k, .create v⟩

variable [DecidableEq κ]

/-- The slot, if it is of a kind. -/
def slot? (e : Entry κ) (k : κ) : Option (Slot (Catalog.Value k)) :=
  if h : e.kind = k then some (h ▸ e.slot) else none

/-- Stages a request of a kind. A slot of another kind is replaced by a new one. -/
def stage (e : Entry κ) (k : κ) (v : Option (Catalog.Value k)) : Entry κ :=
  match e.slot? k with
  | some s => ⟨k, s.stage v⟩
  | none => create k v

@[simp] theorem slot?_self (k : κ) (s : Slot (Catalog.Value k)) :
    (Entry.mk k s).slot? k = some s := by
  simp [slot?]

theorem slot?_eq_none {e : Entry κ} {k : κ} (h : e.kind ≠ k) : e.slot? k = none := by
  simp [slot?, h]

/-- Staging a request of the slot's own kind keeps the committed value. -/
theorem stage_self (k : κ) (s : Slot (Catalog.Value k)) (v : Option (Catalog.Value k)) :
    (Entry.mk k s).stage k v = ⟨k, s.stage v⟩ := by
  simp [stage]

/-- Staging a request of another kind starts anew. -/
theorem stage_of_ne {e : Entry κ} {k : κ} (h : e.kind ≠ k) (v : Option (Catalog.Value k)) :
    e.stage k v = create k v := by
  simp [stage, slot?_eq_none h]

end Entry

/-- The slots of one component by their attributes. -/
structure Table (κ : Type) [Catalog κ] where
  slots : AttributeMap (Entry κ) := ∅

namespace Table

variable {κ : Type} [Catalog κ]

instance : EmptyCollection (Table κ) := ⟨⟨∅⟩⟩
instance : Inhabited (Table κ) := ⟨∅⟩

@[ext] theorem ext {t u : Table κ} (h : ∀ a, t.slots.get? a = u.slots.get? a) : t = u := by
  obtain ⟨t⟩ := t
  obtain ⟨u⟩ := u
  exact congrArg Table.mk (AttributeMap.ext h)

/-- The number of slots. -/
def size (t : Table κ) : Nat := t.slots.size

/-- Whether there is no slot. -/
def isEmpty (t : Table κ) : Bool := t.slots.isEmpty

/-- Whether there is a slot for an attribute. -/
def contains (t : Table κ) (a : Attribute) : Bool := t.slots.contains a

/-- The attributes that have a slot, in table order. -/
def attributes (t : Table κ) : List Attribute := t.slots.keys

variable [DecidableEq κ]

/-- The slot of a kind, if the slot of its attribute is of that kind. -/
def slot? (t : Table κ) (k : κ) : Option (Slot (Catalog.Value k)) :=
  (t.slots.get? (Catalog.policy k).target).bind (·.slot? k)

/-- The slot that staging a request of a kind leaves, where there was one or none. -/
def restage (k : κ) (v : Option (Catalog.Value k)) : Option (Entry κ) → Entry κ
  | some e => e.stage k v
  | none => .create k v

/-- The committed value of a slot, if there is one and it is of a kind. -/
def committed? (k : κ) (o : Option (Entry κ)) : Option (Catalog.Value k) :=
  (o.bind (·.slot? k)).bind (·.committed)

@[simp] theorem committed?_self (k : κ) (s : Slot (Catalog.Value k)) :
    committed? k (some ⟨k, s⟩) = s.committed := by
  simp [committed?]

theorem committed?_of_ne {e : Entry κ} {k : κ} (h : e.kind ≠ k) :
    committed? k (some e) = none := by
  simp [committed?, Entry.slot?_eq_none h]

/-- The slot that staging leaves: the request waits in it, over the committed value that there was
of its kind. -/
theorem restage_eq (k : κ) (v : Option (Catalog.Value k)) (o : Option (Entry κ)) :
    restage k v o = ⟨k, ⟨some (.ofOption v), committed? k o⟩⟩ := by
  rcases o with _ | e
  · rfl
  · by_cases h : e.kind = k
    · rcases e with ⟨_, s⟩
      subst h
      rw [committed?_self]
      exact Entry.stage_self _ s v
    · rw [committed?_of_ne h]
      exact Entry.stage_of_ne h v

/-- Stages a request of a kind, in the slot of its attribute or in a new one. Nothing is a request
for the default. -/
def stage (t : Table κ) (k : κ) (v : Option (Catalog.Value k)) : Table κ :=
  let a := (Catalog.policy k).target
  { slots := t.slots.insert a (restage k v (t.slots.get? a)) }

/-- Staging changes the slot of its own attribute alone. -/
theorem get?_stage (t : Table κ) (k : κ) (v : Option (Catalog.Value k)) (a : Attribute) :
    (t.stage k v).slots.get? a =
      if (Catalog.policy k).target = a then some (restage k v (t.slots.get? a))
      else t.slots.get? a := by
  simp only [stage, AttributeMap.get?_insert]
  split
  · rename_i h
    rw [h]
  · rfl

end Table

end Reconciler
