import Reconciler.Json.Library
import Reconciler.Text.Blank

/-!
# Settings

What a host may configure: the log filter, and two flags on the form of log lines. Settings are read
from a JSON document by a library, for which their shapes are declared here. Everything may be left
out of the document, nothing else may be in it, and the filter may be overridden by the environment.
What a filter is, is for the library to say that writes the log, so its reader is left open as well.
-/

namespace Reconciler

/-- Why settings are of no use. An error of the library that reads JSON is handed on. -/
inductive SettingsError (ε : Type) where
  /-- The document is refused. -/
  | json (e : ε)
  /-- The log filter is malformed. -/
  | filter (text : String)
deriving DecidableEq, Repr

/-- The settings of the log. -/
structure LogSettings where
  /-- The filter, as directives separated by commas. -/
  filter : String := "info"
  /-- Whether lines are colored. -/
  ansi : Bool := true
  /-- Whether lines name their target. -/
  target : Bool := false
deriving DecidableEq, Repr, Inhabited

/-- What is declared of the log settings. -/
def LogSettings.shape (lib : Json.Library) : Json.Shape lib.De LogSettings where
  fields :=
    [⟨"filter", lib.text, filter, fun s v => { s with filter := v }⟩,
     ⟨"ansi", lib.flag, ansi, fun s v => { s with ansi := v }⟩,
     ⟨"target", lib.flag, target, fun s v => { s with target := v }⟩]
  default := {}
  fillsDefaults := true
  deniesUnknown := true
  nodup := by simp
  get_put := by simp
  get_put_of_ne := by simp
  ext := by
    rintro ⟨filter, ansi, target⟩ ⟨filter', ansi', target'⟩ h
    simpa using h

/-- All settings. -/
structure Settings where
  log : LogSettings := {}
deriving DecidableEq, Repr, Inhabited

namespace Settings

/-- What is declared of the settings. -/
def shape (lib : Json.Library) : Json.Shape lib.De Settings where
  fields := [⟨"log", lib.record (LogSettings.shape lib), log, fun _ v => { log := v }⟩]
  default := {}
  fillsDefaults := true
  deniesUnknown := true
  nodup := by simp
  get_put := by simp
  get_put_of_ne := by simp
  ext := by
    rintro ⟨log⟩ ⟨log'⟩ h
    simpa using h

/-- Reads settings from a JSON document. Whatever is left out takes its default. -/
def ofJson (lib : Json.Library) (s : String) : Except (SettingsError lib.Error) Settings :=
  match lib.fromText (lib.record (shape lib)) s with
  | .ok c => .ok c
  | .error e => .error (.json e)

/-- Puts another filter in place, if there is one that is not blank. It is kept as it is, with the
blanks at its ends. -/
def override (s : Settings) (filter : Option String) : Settings :=
  match filter with
  | some f => if Text.isBlankText f then s else { s with log := { s.log with filter := f } }
  | none => s

/-- The default settings, with the filter of the environment if there is one. -/
def ofEnvironment (filter : Option String) : Settings := ({} : Settings).override filter

/-- The log filter of some settings, by a reader of filters. -/
def logFilter {ε φ : Type} (read : String → Option φ) (s : Settings) :
    Except (SettingsError ε) φ :=
  match read s.log.filter with
  | some filter => .ok filter
  | none => .error (.filter s.log.filter)

end Settings

end Reconciler
