import XbrlNetworks.Analysis
import XbrlNetworks.Text.Path
import XbrlNetworks.Toml.Document

/-! # Settings of a store

Settings are written as a TOML document in which every field may be left out.
-/

namespace XbrlNetworks

/-- How a store works. -/
structure Settings where
  path : String
  /-- How long to wait for data that are locked, in milliseconds -/
  busyTimeout : Nat
  /-- How long filling all networks may take, in seconds; zero for no limit -/
  completionTimeout : Nat
  mode : Analysis.Mode
deriving DecidableEq, Repr

namespace Settings

/-- Why a text gives no settings. -/
inductive Refusal where
  /-- The text is no TOML document, or a field has a value of a wrong type. -/
  | malformed
  | emptyPath
deriving DecidableEq, Repr

def Refusal.message? : Refusal → Option String
  | malformed => none
  | emptyPath => some "Configuration error: path must not be empty"

def standard : Settings := ⟨"linkbase.db", 5000, 0, .activeOnly⟩

def inMemory : Settings := { standard with path := ":memory:" }

def timeLimit (settings : Settings) : Option Duration :=
  if settings.completionTimeout = 0 then none else some (.ofSeconds settings.completionTimeout)

/-- Whether two settings mean the same, however their paths are written. -/
def agree (first second : Settings) : Bool :=
  samePath first.path second.path && first.busyTimeout == second.busyTimeout &&
    first.completionTimeout == second.completionTimeout && first.mode == second.mode

def textField (document : Toml.Document) (name standard : String) : Option String :=
  match document.value? name with
  | none => some standard
  | some (.text text) => some text
  | some _ => none

def numberField (document : Toml.Document) (name : String) (standard : Nat) : Option Nat :=
  match document.value? name with
  | none => some standard
  | some (.whole (.ofNat number)) => some number
  | some _ => none

def choiceField (document : Toml.Document) (name standard : String) : Option String :=
  match document.value? name with
  | none => some standard
  | some value => value.choice?

def ofDocument? (document : Toml.Document) : Option Settings := do
  let path ← textField document "path" standard.path
  let busyTimeout ← numberField document "busy_timeout_ms" standard.busyTimeout
  let completionTimeout ← numberField document "completion_timeout_secs" standard.completionTimeout
  let mode ← Analysis.Mode.ofText? (← choiceField document "analyser_mode" standard.mode.text)
  return ⟨path, busyTimeout, completionTimeout, mode⟩

/-- Reads settings.  The path is looked at when everything else is in order. -/
def ofText (text : String) : Except Refusal Settings :=
  match (Toml.Document.ofText? text).bind ofDocument? with
  | none => .error .malformed
  | some settings => if settings.path = "" then .error .emptyPath else .ok settings

end Settings

end XbrlNetworks
