import Reconciler.Number.Double
import Reconciler.Shared

/-!
# Resources

A resource is a reference to an asset that is stored outside the component tree, such as a themed
color or a dimension. The native side resolves it; here it is only carried and compared, by its
bundle, its module, its number and its bag of parameters. A bag is a shared object, so two bags with
the same parameters in them are still two bags.
-/

namespace Reconciler

/-- A single argument of a formatted resource. -/
inductive Param where
  | text (s : String)
  | number (x : Double)
deriving BEq, Repr, Inhabited

/-- A reference to an asset stored outside the component tree. -/
structure Resource where
  /-- The package that the asset belongs to. -/
  bundle : String
  /-- The module inside the package. -/
  moduleName : String
  /-- The number of the asset. -/
  id : Int
  /-- The parameters, if the resource is a formatted one. -/
  params : Option (Shared (List Param)) := none
deriving Repr, Inhabited

namespace Resource

/-- Whether two descriptors name the same asset: bundle, module and number are equal, and the bags
of parameters are one object or both absent. -/
def same (r s : Resource) : Bool :=
  r.bundle == s.bundle && r.moduleName == s.moduleName && r.id == s.id && r.params == s.params

instance : BEq Resource := ⟨same⟩

/-- The number of parameters, if there is a bag of them. -/
def paramCount (r : Resource) : Option Nat := r.params.map (·.value.length)

/-- The text of a descriptor, without its parameters. -/
def text (r : Resource) : String := s!"$r({r.bundle}:{r.moduleName}/{r.id})"

instance : ToString Resource := ⟨text⟩

theorem beq_iff {r s : Resource} :
    (r == s) = true ↔
      r.bundle = s.bundle ∧ r.moduleName = s.moduleName ∧ r.id = s.id ∧
        (r.params == s.params) = true := by
  simp only [BEq.beq, same, Bool.and_eq_true, decide_eq_true_eq, and_assoc]

theorem beq_self (r : Resource) : (r == r) = true := by
  refine beq_iff.2 ⟨rfl, rfl, rfl, ?_⟩
  cases h : r.params with
  | none => rfl
  | some p => exact Shared.beq_self p

end Resource

/-- What may stand for a resource in place of a literal. -/
class HasResource (α : Type) where
  /-- The resource, if the value is one. -/
  resource? : α → Option Resource

export HasResource (resource?)

namespace HasResource

/-- Whether a value is a resource and no literal. -/
def isResource {α : Type} [HasResource α] (x : α) : Bool := (resource? x).isSome

instance : HasResource Resource := ⟨some⟩

instance {α : Type} [HasResource α] : HasResource (Option α) := ⟨fun x => x.bind resource?⟩

end HasResource

end Reconciler
