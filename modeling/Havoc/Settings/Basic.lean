import Havoc.Quantity.Reader
import Havoc.Json.Record
import Havoc.Settings.Tree

/-! # Settings

    Settings come from pairs, or from a file under environment variables under defaults.  A name
    is looked up in lower case, blanks around a value do not count, and a blank value is absent.
    A number in the settings is a quantity. -/

namespace Havoc

open Havoc.Text

/-- Settings of the service. -/
structure Settings where
  tree : Settings.Tree

/-- Why a setting has no value. -/
inductive SettingsError where
  | notConfigured (what : String)
  | missing (key : String)
  | invalidValue (key : String) (cause : QuantityError)
  | outOfRange (key : String) (value : Int)
  | invalidDocument (key : String)
  deriving DecidableEq, Repr

/-- What is told about the error. -/
def SettingsError.message : SettingsError → String
  | notConfigured what => s!"{what} configuration not found"
  | missing key => s!"{key} not provided"
  | invalidValue key cause => s!"invalid value for {key}: {cause.message}"
  | outOfRange key value => s!"{key} is out of range: {value}"
  | invalidDocument key => s!"{key} is not a valid json document: {Json.malformed}"

namespace Settings

/-- Why settings cannot be built. -/
inductive BuildError where
  /-- A key that is no path. -/
  | invalidKey
  /-- A path to a place before the start of a list. -/
  | outside
  /-- A file that cannot be read. -/
  | unreadable
  deriving DecidableEq, Repr

/-- The path of a key; a key that is none is a plain name. -/
def lenientPath (key : List Char) : List Step := (path? key).getD [.name key]

/-- Sets values one after the other. -/
def setAll (t : Tree) : List (List Step × Tree) → Except BuildError Tree
  | [] => .ok t
  | (path, x) :: rest =>
    match Tree.set? x path t with
    | some t => setAll t rest
    | none => .error .outside

/-- The settings in pairs of keys and values. -/
def ofPairs (pairs : List (String × String)) : Except BuildError Settings := do
  let paths ← pairs.mapM fun (key, x) =>
    match path? (asciiLower key.toList) with
    | some path => .ok (path, Tree.leaf x)
    | none => throw .invalidKey
  return ⟨← setAll (.table []) paths⟩

/-- The settings in a file under the variables of the environment. -/
def load (file : Option (List UInt8)) (environment : List (String × String)) :
    Except BuildError Settings := do
  let entries ← match file with
    | none => pure []
    | some bytes =>
      match Json.Value.read? bytes with
      | some v => pure (Tree.ofValue v).entries
      | none => throw .unreadable
  let t ← setAll (.table [("log_format".toList, .leaf "apache")])
    (entries.map fun (key, x) => (lenientPath key, x))
  return ⟨← setAll t
    (environment.map fun (key, x) => (lenientPath (asciiLower key.toList), .leaf x))⟩

/-- The value of a setting. -/
def get? (s : Settings) (key : String) : Option String :=
  match ((path? (asciiLower key.toList)).bind (Tree.get? · s.tree)).bind Tree.text? with
  | some x => if (trimmed x).isEmpty then none else some (trimmed x)
  | none => none

/-- The truth value of a setting: true is the word, in any case. -/
def getBool? (s : Settings) (key : String) : Option Bool :=
  (s.get? key).map fun x => eqIgnoreCase x "true"

/-- A value that may have to be drawn, or why there is none. -/
abbrev Lookup (α : Type) := ExceptT SettingsError Draw α

/-- An integer setting that is given as a text; `own` is the range of a bare `RANDOM`. -/
def intOf (key text : String) (own : IntRange) : Lookup Int :=
  match (Quantity.ofText text : Except QuantityError (Quantity Int)) with
  | .ok q => (q.draw own : Draw Int)
  | .error e => throw (.invalidValue key e)

/-- The ports that a bare `RANDOM` draws from. -/
def randomPorts : IntRange := ⟨1024, 65535, by decide⟩

/-- The delays that a bare `RANDOM` draws from. -/
def randomDelays : IntRange := ⟨1, 5, by decide⟩

/-- A port setting. -/
def portOr (s : Settings) (key : String) (absent : Nat) : Lookup Nat :=
  match s.get? key with
  | none => return absent
  | some text => do
    let n ← intOf key text randomPorts
    if 0 ≤ n ∧ n < 65536 then return n.toNat else throw (.outOfRange key n)

/-- The format of the access log. -/
def logFormat (s : Settings) : String := (s.get? "LOG_FORMAT").getD "apache"

/-- The port that the service listens on. -/
def port (s : Settings) : Lookup Nat := s.portOr "PORT" 8080

/-- The seconds to wait before the service starts. -/
def startupDelay (s : Settings) : Lookup Nat :=
  match s.get? "STARTUP_DELAY_SECOND" with
  | none => return 0
  | some text => do return (← intOf "STARTUP_DELAY_SECOND" text randomDelays).toNat

/-- The seconds to wait before the service starts; none if the setting is no number. -/
def startupDelayOrZero (s : Settings) : Draw Nat := do
  match ← s.startupDelay.run with
  | .ok n => return n
  | .error _ => return 0

/-- The colour of the colour page. -/
def htmlColor (s : Settings) : Option String := s.get? "RANDOM_HTML_API_COLOR"

/-- How the metrics are served. -/
structure MetricsSettings where
  enabled : Bool
  port : Nat
  path : String
  deriving DecidableEq, Repr

/-- The settings of the metrics. -/
def metrics (s : Settings) : Lookup MetricsSettings := do
  return {
    enabled := (s.getBool? "METRICS_ENABLED").getD true
    port := ← s.portOr "METRICS_PORT" 9090
    path := (s.get? "METRICS_PATH").getD "/metrics" }

end Settings

end Havoc
