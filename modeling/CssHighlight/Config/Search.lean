import CssHighlight.Config.Basic
import CssHighlight.Files.Text

/-!
# Search for a configuration

Settings come from the nearest settings file that has a table for them, on the way from a
directory up to the root. Values that are given directly go before those of the table.
-/
namespace CssHighlight

inductive SearchError where
  | config (cause : ConfigError)
  | unknownSetting (cause : UnknownSetting)
  | file (cause : FileError)
  | table (cause : TableError)
  deriving DecidableEq, Repr, Inhabited

def SearchError.message : SearchError → String
  | .config cause => cause.message
  | .unknownSetting cause => cause.message
  | .file cause => cause.message
  | .table cause => cause.message

namespace Config

def tableKey : String := "css-scanner"

/-- The files that may hold settings, in the order of their rank, with the keys of the tables
that are looked for in each. -/
def sources : List (String × List (List String)) :=
  [("pyproject.toml", [["tool", tableKey]]),
   ("." ++ tableKey ++ ".toml", [[tableKey], ["tool", tableKey]])]

def valueAt (key : List String) (entries : Toml.Entries) : Option Value :=
  match key with
  | [] => some (.table entries)
  | [part] => Toml.Entries.get? entries part
  | part :: rest =>
    match Toml.Entries.get? entries part with
    | some (.table inner) => valueAt rest inner
    | _ => none

/-- The configuration that a table of settings describes. -/
def ofValue (file : String) (key : List String) (value : Value) : Except ConfigError Config :=
  let invalid := ConfigError.invalidTable (".".intercalate key) file
  match value with
  | .table entries =>
    match ({} : Config).putAll entries with
    | .ok config => .ok config
    | .error _ => .error invalid
  | _ => .error invalid

/-- The path of the keyword file, seen from the directory of the file that names it. -/
def anchorKeywords (p : Place) (directory : Path) (config : Config) : Except FileError Config :=
  match config.keywordsFile with
  | .str text =>
    if text = "" then .ok config
    else
      (p.expandHome (.ofText text)).map fun path =>
        { config with keywordsFile := .str (directory.joinPath path).toText }
  | _ => .ok config

/-- The configuration in one settings file, if it holds one. A file that cannot be read as TOML
counts as one that does not. -/
def inFile (p : Place) (directory : Path) (source : String × List (List String)) :
    Except SearchError (Option Config) := do
  let file := (directory.join source.1).toText
  match p.doesExist file with
  | .error cause => throw (.file cause)
  | .ok false => return none
  | .ok true =>
    match p.readTable file with
    | .error (.read (.file (.system _ _))) => return none
    | .error (.toml .malformed) => return none
    | .error cause => throw (.table cause)
    | .ok entries =>
      match source.2.findSome? fun key => (valueAt key entries).map (key, ·) with
      | none => return none
      | some (key, value) =>
        match ofValue file key value with
        | .error cause => throw (.config cause)
        | .ok config =>
          match config.anchorKeywords p directory with
          | .error cause => throw (.file cause)
          | .ok config => return some config

/-- The configuration in a directory, if it has one. -/
def inDirectory (p : Place) (directory : Path) :
    List (String × List (List String)) → Except SearchError (Option Config)
  | [] => .ok none
  | source :: rest => do
    match ← inFile p directory source with
    | some config => return some config
    | none => inDirectory p directory rest

/-- The nearest configuration, in a directory and up to `levels` directories above it. -/
def nearest (p : Place) (directory : Path) : Nat → Except SearchError Config
  | 0 => do return (← inDirectory p directory sources).getD {}
  | levels + 1 => do
    match ← inDirectory p directory sources with
    | some config => return config
    | none => nearest p directory.parent levels

/-- The configuration for a directory, which need not exist. -/
def search (p : Place) (directory : Path) : Except SearchError Config :=
  match p.resolve false directory with
  | .error cause => .error (.file cause)
  | .ok directory => nearest p directory directory.names.length

/-- The configuration for a directory with the given overrides, checked, and with its dialect. -/
def build (p : Place) (directory : Path) (fallback : Dialect)
    (overrides : List (String × Value)) : Except SearchError Config := do
  let found ← search p directory
  match found.override overrides with
  | .error cause => throw (.unknownSetting cause)
  | .ok config =>
    match config.settings fallback with
    | .error cause => throw (.config cause)
    | .ok settings => return { config with dialect := .dialect settings.dialect }

end Config

end CssHighlight
