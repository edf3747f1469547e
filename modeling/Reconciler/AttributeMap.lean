import Reconciler.Attribute

/-!
# Maps over attributes

A partial map from attributes to values, kept as one optional cell per attribute. `get?` is the
view: every operation is described by what it does to `get?`, and two maps with the same view are
equal. `entries` and `keys` list the occupied cells in table order.
-/

namespace Reconciler

/-- A partial map from attributes to `α`: one optional cell for each attribute, in table order. -/
structure AttributeMap (α : Type) where
  cells : Vector (Option α) 21

namespace AttributeMap

variable {α β : Type}

/-- The map without values. -/
def empty : AttributeMap α := ⟨Vector.replicate 21 none⟩

instance : EmptyCollection (AttributeMap α) := ⟨empty⟩
instance : Inhabited (AttributeMap α) := ⟨empty⟩

/-- The value at an attribute, if there is one. -/
def get? (m : AttributeMap α) (a : Attribute) : Option α :=
  have _inside := a.index_lt
  m.cells[a.index]

/-- Puts a value, or nothing, into the cell of an attribute. -/
def put (m : AttributeMap α) (a : Attribute) (v : Option α) : AttributeMap α :=
  ⟨m.cells.set a.index v a.index_lt⟩

/-- Gives an attribute a value, in place of the one it had. -/
def insert (m : AttributeMap α) (a : Attribute) (v : α) : AttributeMap α := m.put a (some v)

/-- Removes the value of an attribute. -/
def erase (m : AttributeMap α) (a : Attribute) : AttributeMap α := m.put a none

/-- Whether an attribute has a value. -/
def contains (m : AttributeMap α) (a : Attribute) : Bool := (m.get? a).isSome

/-- The attributes that have a value, in table order. -/
def keys (m : AttributeMap α) : List Attribute := Attribute.all.filter m.contains

/-- The attributes that have a value together with it, in table order. -/
def entries (m : AttributeMap α) : List (Attribute × α) :=
  Attribute.all.filterMap fun a => (m.get? a).map (a, ·)

/-- How many attributes have a value. -/
def size (m : AttributeMap α) : Nat := m.keys.length

/-- Whether no attribute has a value. -/
def isEmpty (m : AttributeMap α) : Bool := m.keys.isEmpty

@[ext] theorem ext {m n : AttributeMap α} (h : ∀ a, m.get? a = n.get? a) : m = n := by
  obtain ⟨m⟩ := m
  obtain ⟨n⟩ := n
  congr
  apply Vector.ext
  intro i hi
  have key : ∀ a : Attribute, a.index = i → m[i] = n[i] := by
    rintro a rfl
    exact h a
  obtain ⟨a, ha⟩ : ∃ a : Attribute, a.index = i := by
    have : ∀ i : Fin 21, ∃ a ∈ Attribute.all, a.index = i.val := by decide
    obtain ⟨a, -, ha⟩ := this ⟨i, hi⟩
    exact ⟨a, ha⟩
  exact key a ha

@[simp] theorem get?_empty (a : Attribute) : (empty : AttributeMap α).get? a = none := by
  simp [get?, empty]

@[simp] theorem get?_emptyCollection (a : Attribute) : (∅ : AttributeMap α).get? a = none :=
  get?_empty a

theorem get?_put (m : AttributeMap α) (a : Attribute) (v : Option α) (b : Attribute) :
    (m.put a v).get? b = if a = b then v else m.get? b := by
  unfold get? put
  rw [Vector.getElem_set]
  by_cases h : a = b
  · simp [h]
  · rw [if_neg (fun e => h (Attribute.index_inj e)), if_neg h]

theorem get?_insert (m : AttributeMap α) (a : Attribute) (v : α) (b : Attribute) :
    (m.insert a v).get? b = if a = b then some v else m.get? b := get?_put m a (some v) b

theorem get?_erase (m : AttributeMap α) (a b : Attribute) :
    (m.erase a).get? b = if a = b then none else m.get? b := get?_put m a none b

theorem contains_iff {m : AttributeMap α} {a : Attribute} :
    m.contains a = true ↔ ∃ v, m.get? a = some v := by
  simp [contains, Option.isSome_iff_exists]

theorem mem_keys {m : AttributeMap α} {a : Attribute} : a ∈ m.keys ↔ m.contains a = true := by
  simp [keys, Attribute.mem_all]

theorem mem_entries {m : AttributeMap α} {a : Attribute} {v : α} :
    (a, v) ∈ m.entries ↔ m.get? a = some v := by
  simp [entries, Attribute.mem_all, Option.map_eq_some_iff]

/-- The keys are the first halves of the entries. -/
theorem map_fst_entries (m : AttributeMap α) : m.entries.map Prod.fst = m.keys := by
  unfold entries keys
  generalize Attribute.all = as
  induction as with
  | nil => rfl
  | cons a as ih => cases h : m.get? a <;> simp [h, ih, contains]

/-- The keys are strictly increasing in table order. -/
theorem sorted_keys (m : AttributeMap α) : m.keys.Pairwise (· < ·) :=
  Attribute.sorted_all.filter _

end AttributeMap

end Reconciler
