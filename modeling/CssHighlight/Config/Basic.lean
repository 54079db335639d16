import CssHighlight.Value

/-!
# Configuration

A configuration holds the values of its four settings as they were given. Checking it yields
typed settings, or the first reason why there are none.
-/
namespace CssHighlight

def defaultMaxFileSize : Int := 10 * 1024 * 1024

structure Config where
  /-- A dialect or its name; with none, the file's extension decides. -/
  dialect : Value := .null
  /-- Whether fold levels are computed. -/
  fold : Value := .bool true
  /-- A file with keyword lists in place of the built-in ones. -/
  keywordsFile : Value := .null
  maxFileSize : Value := .int defaultMaxFileSize
  deriving Inhabited

/-- A configuration that passed all checks. -/
structure Settings where
  dialect : Dialect
  fold : Bool
  keywordsFile : Option String
  maxFileSize : Nat
  deriving DecidableEq, Repr

inductive ConfigError where
  | unknownDialect (label : String)
  | dialectNotText
  | foldNotBoolean
  | keywordsFileNotText
  | maxFileSizeNotInteger
  | maxFileSizeNotPositive
  /-- A settings file holds something else than a table of known settings. -/
  | invalidTable (table file : String)
  deriving DecidableEq, Repr, Inhabited

def ConfigError.message : ConfigError → String
  | .unknownDialect label => Dialect.unknownMessage label
  | .dialectNotText => "`dialect` must be a string"
  | .foldNotBoolean => "`fold` must be a boolean"
  | .keywordsFileNotText => "`keywords_file` must be a string"
  | .maxFileSizeNotInteger => "`max_file_size` must be an integer"
  | .maxFileSizeNotPositive => "`max_file_size` must be a positive integer"
  | .invalidTable table file => s!"Invalid `[{table}]` settings in {file}"

structure UnknownSetting where
  name : String
  deriving DecidableEq, Repr

def UnknownSetting.message (e : UnknownSetting) : String :=
  s!"ScannerConfig.__init__() got an unexpected keyword argument '{e.name}'"

namespace Config

/-- The configuration with another value for the setting of the given name. -/
def put (config : Config) (entry : String × Value) : Except UnknownSetting Config :=
  match entry.1 with
  | "dialect" => .ok { config with dialect := entry.2 }
  | "fold" => .ok { config with fold := entry.2 }
  | "keywords_file" => .ok { config with keywordsFile := entry.2 }
  | "max_file_size" => .ok { config with maxFileSize := entry.2 }
  | name => .error ⟨name⟩

def putAll (config : Config) (entries : List (String × Value)) : Except UnknownSetting Config :=
  entries.foldlM put config

/-- The overrides that say something: a missing value overrides nothing. -/
def givenOverrides (overrides : List (String × Value)) : List (String × Value) :=
  overrides.filter fun entry => match entry.2 with
    | .null => false
    | _ => true

/-- Puts the given values in the place of the configuration's. -/
def override (config : Config) (overrides : List (String × Value)) :
    Except UnknownSetting Config :=
  config.putAll (givenOverrides overrides)

/-- The dialect that a configuration asks for. -/
def chosenDialect (config : Config) (fallback : Dialect) : Except ConfigError Dialect :=
  match config.dialect with
  | .null => .ok fallback
  | .dialect d => .ok d
  | .str label =>
    match Dialect.ofLabel? label with
    | some d => .ok d
    | none => .error (.unknownDialect label)
  | _ => .error .dialectNotText

/-- The configuration with its dialect in place of the dialect's name. -/
def normalize (config : Config) (fallback : Dialect) : Except ConfigError Config :=
  (config.chosenDialect fallback).map fun d => { config with dialect := .dialect d }

def checkedFold (config : Config) : Except ConfigError Bool :=
  match config.fold with
  | .bool b => .ok b
  | _ => .error .foldNotBoolean

def checkedKeywordsFile (config : Config) : Except ConfigError (Option String) :=
  match config.keywordsFile with
  | .null => .ok none
  | .str path => .ok (some path)
  | _ => .error .keywordsFileNotText

def checkedMaxFileSize (config : Config) : Except ConfigError Nat :=
  match config.maxFileSize with
  | .int n => if 0 < n then .ok n.toNat else .error .maxFileSizeNotPositive
  | _ => .error .maxFileSizeNotInteger

def settings (config : Config) (fallback : Dialect) : Except ConfigError Settings := do
  let dialect ← config.chosenDialect fallback
  let fold ← config.checkedFold
  let keywordsFile ← config.checkedKeywordsFile
  let maxFileSize ← config.checkedMaxFileSize
  return ⟨dialect, fold, keywordsFile, maxFileSize⟩

def validate (config : Config) : Except ConfigError Unit :=
  (config.settings .standard).map fun _ => ()

end Config

end CssHighlight
