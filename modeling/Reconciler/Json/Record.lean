import Reconciler.Json.Library
import Reconciler.Json.Number
import Reconciler.Json.Text

/-!
# Reading records

Readers for text, flags and nulls, and for records: values with named fields, each of which may be
left out. A record comes as an object with some of the fields, in any order, or as an array with the
first few fields in order. A key that is none of the fields still open is a fault at once, be it
unknown or repeated.

A value that is not what is wanted is unfit. One that is a single token is read to its end before
that is said, so that a fault in it goes before.
-/

namespace Reconciler.Json

/-- Fails on a value that is not wanted, after its first token has been read. -/
def unwanted {α : Type} : Reader α
  | [] => .error .endsEarly
  | 'n' :: cs => refuse (word () "ull".toList cs)
  | 't' :: cs => refuse (word () "rue".toList cs)
  | 'f' :: cs => refuse (word () "alse".toList cs)
  | '-' :: cs => refuse (unsigned cs)
  | '"' :: cs => refuse (unquoted cs)
  | '[' :: _ => .error .unfit
  | '\x7b' :: _ => .error .unfit
  | c :: cs => if isDigit c then refuse (unsigned (c :: cs)) else .error .malformed
where
  /-- What is read is unfit, unless it could not be read. -/
  refuse {β : Type} : Except Fault β → Except Fault (α × List Char)
    | .error f => .error f
    | .ok _ => .error .unfit

/-- Reads text. -/
def text : Reader String := fun cs =>
  match skipSpace cs with
  | '"' :: cs =>
    match unquoted cs with
    | .error f => .error f
    | .ok (s, rest) => .ok (String.ofList s, rest)
  | cs => unwanted cs

/-- Reads a flag. -/
def flag : Reader Bool := fun cs =>
  match skipSpace cs with
  | 't' :: cs => word true "rue".toList cs
  | 'f' :: cs => word false "alse".toList cs
  | cs => unwanted cs

/-- Reads a null. -/
def null : Reader Unit := fun cs =>
  match skipSpace cs with
  | 'n' :: cs => word () "ull".toList cs
  | cs => unwanted cs

/-- Reads a colon. -/
def colon : Reader Unit := fun cs =>
  match skipSpace cs with
  | [] => .error .endsEarly
  | ':' :: cs => .ok ((), cs)
  | _ :: _ => .error .malformed

/-- Reads the key of a member. No object has a key that is not text, so whatever stands in the place
of one is malformed at its first character. -/
def key : Reader String := fun cs =>
  match skipSpace cs with
  | [] => .error .endsEarly
  | '"' :: cs =>
    match unquoted cs with
    | .error f => .error f
    | .ok (s, rest) => .ok (String.ofList s, rest)
  | _ :: _ => .error .malformed

/-- Reads the value of a field, and puts it into a record. -/
def Field.read {σ : Type} (f : Field Reader σ) (s : σ) : Reader σ := fun cs =>
  (f.de cs).map fun (v, rest) => (f.put s v, rest)

namespace Record

variable {σ : Type}

/-- Finds the end of an object, or the key of its next member: the first member stands alone, and
every other one follows a comma. -/
def nextKey (first : Bool) : Reader (Option String) := fun cs =>
  match skipSpace cs with
  | [] => .error .endsEarly
  | '\x7d' :: cs => .ok (none, cs)
  | c :: cs =>
    if first then member (c :: cs)
    else if c = ',' then member cs
    else .error .malformed
where
  /-- Reads the key of a member that must be there. -/
  member : Reader (Option String) := fun cs =>
    match key cs with
    | .error f => .error f
    | .ok (k, rest) => .ok (some k, rest)

/-- Finds the end of an array, or the next element of it: the first element stands alone, and every
other one follows a comma. The answer is whether there is an element. -/
def nextElement (first : Bool) : Reader Bool := fun cs =>
  match skipSpace cs with
  | [] => .error .endsEarly
  | ']' :: cs => .ok (false, cs)
  | c :: cs =>
    if first then .ok (true, c :: cs)
    else if c = ',' then
      match skipSpace cs with
      | [] => .error .endsEarly
      | ']' :: _ => .error .malformed
      | cs => .ok (true, cs)
    else .error .malformed

/-- Reads members up to the end of an object. The fields are those still open. -/
def members (first : Bool) (fields : List (Field Reader σ)) (s : σ) : Reader σ := fun cs =>
  match nextKey first cs with
  | .error f => .error f
  | .ok (none, rest) => .ok (s, rest)
  | .ok (some key, rest) =>
    match _open : fields.find? (·.name == key) with
    | none => .error .unfit
    | some field =>
      match colon rest with
      | .error f => .error f
      | .ok ((), rest) =>
        match field.read s rest with
        | .error f => .error f
        | .ok (s, rest) => members false (fields.eraseP (·.name == key)) s rest
termination_by fields.length
decreasing_by
  have found := List.find?_eq_some_iff_append.1 _open
  rw [List.length_eraseP_of_mem (List.mem_of_find?_eq_some _open) found.1]
  have := List.length_pos_of_mem (List.mem_of_find?_eq_some _open)
  omega

/-- Reads elements up to the end of an array, one for each field. -/
def elements (first : Bool) : List (Field Reader σ) → σ → Reader σ
  | [], s => fun cs =>
    match skipSpace cs with
    | [] => .error .endsEarly
    | ']' :: cs => .ok (s, cs)
    | _ :: _ => .error .malformed
  | field :: fields, s => fun cs =>
    match nextElement first cs with
    | .error f => .error f
    | .ok (false, rest) => .ok (s, rest)
    | .ok (true, rest) =>
      match field.read s rest with
      | .error f => .error f
      | .ok (s, rest) => elements false fields s rest

end Record

/-- Reads a record: the fields that are given go into the one with all defaults. -/
def record {σ : Type} (shape : Shape Reader σ) : Reader σ := fun cs =>
  match skipSpace cs with
  | '[' :: cs => Record.elements true shape.fields shape.default cs
  | '\x7b' :: cs => Record.members true shape.fields shape.default cs
  | cs => unwanted cs

/-- Reads a whole text: a value, and nothing after it but spaces. -/
def document {α : Type} (reader : Reader α) (s : String) : Except Fault α :=
  match reader s.toList with
  | .error f => .error f
  | .ok (v, rest) => if (skipSpace rest).isEmpty then .ok v else .error .malformed

/-- The readers as a library. They know no records but those that fill in defaults and deny what is
unknown, and read every record as one of those. -/
def readers : Library where
  De := Reader
  Error := Fault
  text := text
  flag := flag
  record := record
  fromText := document

end Reconciler.Json
