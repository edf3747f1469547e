import Reconciler.Attribute
import Reconciler.Json.Record

/-!
# Attributes in JSON

An attribute is written as its name. It is read from its name, or from an object whose one member
has the name for its key and null for its value.
-/

namespace Reconciler.Attribute

/-- The JSON text of an attribute. -/
def toJson (a : Attribute) : String := "\"" ++ a.name ++ "\""

/-- Reads the name of an attribute with a reader of text. Text that is no attribute's name is
unfit. -/
def readName (reader : Json.Reader String) : Json.Reader Attribute := fun cs =>
  match reader cs with
  | .error f => .error f
  | .ok (s, rest) =>
    match ofName? s with
    | some a => .ok (a, rest)
    | none => .error .unfit

/-- Reads the one member of an object, and the end of the object. -/
def readMember : Json.Reader Attribute := fun cs =>
  match readName Json.key cs with
  | .error f => .error f
  | .ok (a, rest) =>
    match Json.colon rest with
    | .error f => .error f
    | .ok ((), rest) =>
      match Json.null rest with
      | .error f => .error f
      | .ok ((), rest) =>
        match Json.skipSpace rest with
        | [] => .error .endsEarly
        | '\x7d' :: rest => .ok (a, rest)
        | _ :: _ => .error .malformed

/-- Reads an attribute. A value that is neither text nor an object is malformed. -/
def read : Json.Reader Attribute := fun cs =>
  match Json.skipSpace cs with
  | [] => .error .endsEarly
  | '\x7b' :: cs => readMember cs
  | '"' :: cs => readName Json.text ('"' :: cs)
  | _ :: _ => .error .malformed

/-- Reads an attribute from a JSON document. -/
def ofJson (s : String) : Except Json.Fault Attribute := Json.document read s

end Reconciler.Attribute
