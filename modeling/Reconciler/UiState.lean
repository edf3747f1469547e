/-!
# Interaction states

The set of interaction states that a native node is in, as a word of flags. The empty set is the
normal state. A platform may set flags that have no meaning here; they are kept as they are, for the
operations on sets are taken to be those on the words, with no flag left out: a union is a bitwise
or, and a set contains another one if the bitwise and of the two is that one.
-/

namespace Reconciler

/-- A set of interaction states, one bit each. -/
structure UiState where
  bits : UInt32
deriving DecidableEq, Repr, Inhabited

namespace UiState

/-- No state: the node is normal. -/
def normal : UiState := ⟨0⟩

/-- Being pressed. -/
def pressed : UiState := ⟨1⟩

/-- Holding focus. -/
def focused : UiState := ⟨2⟩

/-- Disabled. -/
def disabled : UiState := ⟨4⟩

/-- Selected. -/
def selected : UiState := ⟨8⟩

/-- The states that have a meaning, with their names, in order of precedence. -/
def named : List (UiState × String) :=
  [(pressed, "PRESSED"), (focused, "FOCUSED"), (disabled, "DISABLED"), (selected, "SELECTED")]

/-- The states of either set. -/
def union (s t : UiState) : UiState := ⟨s.bits ||| t.bits⟩

instance : Union UiState := ⟨union⟩

/-- Whether every state of the second set is in the first. -/
def contains (s t : UiState) : Bool := s.bits &&& t.bits == t.bits

/-- Whether no state is in the set. -/
def isEmpty (s : UiState) : Bool := s == normal

/-- Every state that has a meaning. -/
def all : UiState := named.foldl (fun s flag => s ∪ flag.1) normal

/-- The states of the set that have a meaning. -/
def truncate (s : UiState) : UiState := ⟨s.bits &&& all.bits⟩

/-- The bits of the set that have none. -/
def unknown (s : UiState) : UiState := ⟨s.bits &&& ~~~all.bits⟩

/-- The names of the states of the set. -/
def names (s : UiState) : List String := (named.filter fun flag => s.contains flag.1).map (·.2)

/-- A description of the set: its names, and in hexadecimal the bits that have none. -/
def describe (s : UiState) : String :=
  let hex (n : UInt32) := "0x" ++ String.ofList (Nat.toDigits 16 n.toNat)
  let parts := s.names ++ if s.unknown.isEmpty then [] else [hex s.unknown.bits]
  "UiState(" ++ (if parts.isEmpty then hex 0 else " | ".intercalate parts) ++ ")"

end UiState

end Reconciler
