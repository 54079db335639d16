import CssHighlight.Files.Resolve
import CssHighlight.Toml.Document

/-!
# Text files

Files are read whole, as UTF-8, with their line breaks as they are.
-/
namespace CssHighlight

inductive ReadError where
  | file (cause : FileError)
  /-- The bytes are not valid UTF-8. Where they go wrong is not kept. -/
  | notUtf8
  deriving DecidableEq, Repr, Inhabited

/-- What is said about bytes that are not valid UTF-8. -/
def notUtf8Message : String := "<UTF8>"

def ReadError.message : ReadError → String
  | .file cause => cause.message
  | .notUtf8 => notUtf8Message

inductive TableError where
  | read (cause : ReadError)
  | toml (cause : Toml.TomlError)
  deriving DecidableEq, Repr, Inhabited

def TableError.message : TableError → String
  | .read cause => cause.message
  | .toml cause => cause.message

namespace Place

def readText (p : Place) (path : String) : Except ReadError String :=
  match p.read path with
  | .error cause => .error (.file cause)
  | .ok bytes =>
    match String.fromUTF8? bytes with
    | some text => .ok text
    | none => .error .notUtf8

def readTable (p : Place) (path : String) : Except TableError Toml.Entries :=
  match p.readText path with
  | .error cause => .error (.read cause)
  | .ok text =>
    match Toml.parse p.stack text with
    | .ok entries => .ok entries
    | .error cause => .error (.toml cause)

end Place

end CssHighlight
