/-!
# Reading JSON

JSON is read from left to right, straight into the value that is wanted, and the first fault met
decides. There are three: the text *ends early*, it is *malformed* and no JSON at all, or it is
*unfit*, which is to say JSON so far but not what is wanted.

This is one library among those that may be behind a program (`Json.readers`). What settings are
read from a document does not rest on it, but on what is documented of any of them.
-/

namespace Reconciler.Json

/-- Why a text was not read. -/
inductive Fault where
  /-- The text ends before its value does. -/
  | endsEarly
  /-- The text is no JSON. -/
  | malformed
  /-- The text is JSON so far, and not what is wanted. -/
  | unfit
deriving DecidableEq, Repr, Inhabited

/-- Reads from the front of a text: a value and the text after it, or the first fault. -/
abbrev Reader (α : Type) := List Char → Except Fault (α × List Char)

/-- The four characters that may stand between the parts of a value. -/
def isSpace (c : Char) : Bool := c == ' ' || c == '\t' || c == '\n' || c == '\r'

/-- The text after the spaces in front of it. -/
def skipSpace (cs : List Char) : List Char := cs.dropWhile isSpace

/-- Reads a word, letter by letter. -/
def word (value : α) : List Char → Reader α
  | [], cs => .ok (value, cs)
  | _ :: _, [] => .error .endsEarly
  | w :: ws, c :: cs => if c = w then word value ws cs else .error .malformed

end Reconciler.Json
