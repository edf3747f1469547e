/-!
# Log filters

A log filter is a list of directives, separated by commas. A directive is a level, or a target, or a
target with a level after the first equals sign. Levels are known in any case of letters. Libraries
that write logs may know more forms, such as spans and fields; those are not read here.
-/

namespace Reconciler

/-- How much is logged. -/
inductive LogLevel where
  | off
  | error
  | warn
  | info
  | debug
  | trace
deriving DecidableEq, Repr, Inhabited

namespace LogLevel

/-- The levels by their names. -/
def named : List (String × LogLevel) :=
  [("off", off), ("error", error), ("warn", warn), ("info", info), ("debug", debug),
   ("trace", trace)]

/-- The level of a name, in any case of letters. -/
def ofName? (s : String) : Option LogLevel := named.lookup s.toLower

end LogLevel

/-- One part of a log filter. -/
inductive LogDirective where
  /-- A level for every target. -/
  | level (l : LogLevel)
  /-- A target, with a level of its own if there is one. -/
  | target (name : String) (l : Option LogLevel)
deriving DecidableEq, Repr, Inhabited

/-- Reads a directive. It has none if what follows its first equals sign is not a level. -/
def LogDirective.ofText? (cs : List Char) : Option LogDirective :=
  let name := String.ofList (cs.takeWhile (· != '='))
  match cs.dropWhile (· != '=') with
  | [] =>
    match LogLevel.ofName? name with
    | some l => some (level l)
    | none => some (target name none)
  | _ :: rest => (LogLevel.ofName? (String.ofList rest)).map fun l => target name (some l)

namespace LogFilter

/-- The parts of a text between its commas. -/
def parts : List Char → List (List Char)
  | [] => [[]]
  | ',' :: cs => [] :: parts cs
  | c :: cs =>
    match parts cs with
    | [] => [[c]]
    | p :: ps => (c :: p) :: ps

/-- Reads a filter, if each of its directives can be read. -/
def ofText? (s : String) : Option (List LogDirective) := (parts s.toList).mapM LogDirective.ofText?

end LogFilter

end Reconciler
