import Reconciler.Resource

/-!
# Wire values

The arguments of a native setter. A peer receives a flat list of them, in the order that its setter
expects; nothing typed crosses the boundary.
-/

namespace Reconciler

/-- A marshalled argument. -/
inductive WireValue where
  /-- An absent optional argument. -/
  | undefined
  /-- A flag. -/
  | bool (b : Bool)
  /-- An integer, also the code of an enumeration and a packed color. -/
  | int (n : Int)
  /-- A floating point number. -/
  | number (x : Double)
  /-- Text, such as a length with its unit. -/
  | text (s : String)
  /-- A resource that the peer resolves. -/
  | resource (r : Resource)
  /-- A list of arguments inside an argument. -/
  | list (xs : List WireValue)
deriving Repr, Inhabited

namespace WireValue

mutual
/-- Equality of arguments: one kind, and equal contents. -/
def same : WireValue → WireValue → Bool
  | undefined, undefined => true
  | bool a, bool b => a == b
  | int m, int n => m == n
  | number x, number y => x == y
  | text s, text t => s == t
  | resource r, resource s => r == s
  | list xs, list ys => sameAll xs ys
  | _, _ => false

/-- Equality of lists of arguments, one by one. -/
def sameAll : List WireValue → List WireValue → Bool
  | [], [] => true
  | x :: xs, y :: ys => same x y && sameAll xs ys
  | _, _ => false
end

instance : BEq WireValue := ⟨same⟩

theorem sameAll_eq_beq (xs ys : List WireValue) : sameAll xs ys = (xs == ys) := by
  induction xs generalizing ys with
  | nil => cases ys <;> rfl
  | cons x xs ih =>
    cases ys with
    | nil => rfl
    | cons y ys =>
      rw [sameAll, ih]
      rfl

/-- Whether an argument is an absent one. -/
def isUndefined : WireValue → Bool
  | undefined => true
  | _ => false

end WireValue

/-- Types with a single argument that stands for a value. -/
class ToWire (α : Type) where
  toWire : α → WireValue

export ToWire (toWire)

instance : ToWire WireValue := ⟨id⟩
instance : ToWire Bool := ⟨.bool⟩
instance : ToWire Int := ⟨.int⟩
instance : ToWire Double := ⟨.number⟩
instance : ToWire Single := ⟨fun x => .number x.widen⟩
instance : ToWire String := ⟨.text⟩
instance : ToWire Resource := ⟨.resource⟩
instance : ToWire (List WireValue) := ⟨.list⟩

/-- An absent value is an absent argument. -/
instance {α : Type} [ToWire α] : ToWire (Option α) where
  toWire
    | none => .undefined
    | some x => toWire x

end Reconciler
