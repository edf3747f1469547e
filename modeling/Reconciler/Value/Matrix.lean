import Reconciler.Equality
import Reconciler.Wire

/-!
# Transform matrices

Four by four matrices, row by row. They are sent as one list of their sixteen entries.
-/

namespace Reconciler

/-- A transform matrix by its rows. -/
structure Matrix where
  rows : Vector (Vector Double 4) 4
deriving BEq, Repr, Inhabited

namespace Matrix

/-- The transform that changes nothing. -/
def identity : Matrix :=
  ⟨#v[#v[1, 0, 0, 0], #v[0, 1, 0, 0], #v[0, 0, 1, 0], #v[0, 0, 0, 1]]⟩

/-- A move along the axes. -/
def translate (x y z : Double) : Matrix :=
  ⟨#v[#v[1, 0, 0, 0], #v[0, 1, 0, 0], #v[0, 0, 1, 0], #v[x, y, z, 1]]⟩

/-- A scaling around the origin. -/
def scale (x y z : Double) : Matrix :=
  ⟨#v[#v[x, 0, 0, 0], #v[0, y, 0, 0], #v[0, 0, z, 0], #v[0, 0, 0, 1]]⟩

/-- The sixteen entries, row by row. -/
def entries (m : Matrix) : List Double := m.rows.toList.flatMap Vector.toList

instance : DeepEq Matrix := ⟨fun m n => deepEq m.rows n.rows⟩

instance : ToWire Matrix := ⟨fun m => .list (m.entries.map .number)⟩

end Matrix

end Reconciler
