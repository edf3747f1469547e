/-!
# Libraries that read JSON

A library reads JSON into values of many types. How it reads values of a type is an *instance* of
the library for that type. It comes with instances for text and for flags, and derives one for a
type of records from what is declared of it: a `Shape`, with the fields in order, a default, and two
switches. So a program declares shapes, and leaves all reading to the library.

Nothing is said here of what a library does. `Library` is an interface, and any reader of JSON may
stand behind it.
-/

namespace Reconciler.Json

/-- A field of a record: its name, the instance for its value, and its place in the record. -/
structure Field (De : Type → Type) (σ : Type) where
  {α : Type}
  name : String
  de : De α
  get : σ → α
  put : σ → α → σ

/-- What is declared of a type of records. The fields have names of their own, can be changed on
their own, and make up the record. -/
structure Shape (De : Type → Type) (σ : Type) where
  /-- The fields, in order. -/
  fields : List (Field De σ)
  default : σ
  /-- Whether a field that is not given is as in the default. -/
  fillsDefaults : Bool := false
  /-- Whether a field that is not declared is refused. -/
  deniesUnknown : Bool := false
  nodup : (fields.map Field.name).Nodup
  get_put : ∀ f ∈ fields, ∀ s a, f.get (f.put s a) = a
  get_put_of_ne : ∀ f ∈ fields, ∀ g ∈ fields, g.name ≠ f.name → ∀ s a, g.get (f.put s a) = g.get s
  ext : ∀ s t, (∀ f ∈ fields, f.get s = f.get t) → s = t

/-- A library that reads JSON. -/
structure Library where
  /-- The instances for a type. -/
  De : Type → Type
  /-- Why a document is refused. -/
  Error : Type
  /-- The instance for text. -/
  text : De String
  /-- The instance for flags. -/
  flag : De Bool
  /-- The instance that is derived for records. -/
  record {σ : Type} : Shape De σ → De σ
  /-- Reads a document. -/
  fromText {α : Type} : De α → String → Except Error α

end Reconciler.Json
