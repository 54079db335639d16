import CssHighlight.Config.Basic
import CssHighlight.Files.Text

/-!
# Stylesheet files

A stylesheet is a regular file with one of the known extensions. It is read only up to a size,
which the environment may set.
-/
namespace CssHighlight

inductive StylesheetError where
  | missing (path : String)
  | unresolved (path : String) (cause : FileError)
  | notStylesheet (path : String)
  /-- The path itself cannot be used, whatever the files are. -/
  | badPath (cause : FileError)
  | notRegular (path : String)
  deriving DecidableEq, Repr, Inhabited

inductive StylesheetReadError where
  | inaccessible (path : String) (cause : FileError)
  | notRegular (path : String)
  | tooLarge (path : String) (limit : Int)
  | notUtf8 (path : String)
  /-- What is passed on as it is. -/
  | other (cause : ReadError)
  deriving DecidableEq, Repr, Inhabited

namespace Stylesheet

def extensions : List String := [".css", ".scss", ".sass", ".less", ".hss"]

/-- The dialect that a file's extension tells. -/
def dialectOf (path : Path) : Dialect :=
  match Text.lower path.suffix with
  | ".scss" => .scss
  | ".sass" => .scss
  | ".less" => .less
  | ".hss" => .hss
  | _ => .standard

end Stylesheet

def StylesheetError.message : StylesheetError → String
  | .missing path => s!"{path} does not exist."
  | .unresolved path cause => s!"Error resolving {path}: {cause.message}"
  | .notStylesheet path =>
    s!"{path} is not a stylesheet.\nSupported extensions are: " ++
      ", ".intercalate Stylesheet.extensions
  | .badPath cause => cause.message
  | .notRegular path => s!"{path} is not a regular file."

def StylesheetReadError.message : StylesheetReadError → String
  | .inaccessible path cause => s!"Error accessing {path}: {cause.message}"
  | .notRegular path => s!"{path} is not a regular file."
  | .tooLarge path limit => s!"{path} exceeds the maximum allowed size of {limit} bytes."
  | .notUtf8 path => s!"Invalid UTF-8 sequence in {path}: {notUtf8Message}"
  | .other cause => cause.message

namespace Stylesheet

def locate (p : Place) (text : String) : Except StylesheetError Path :=
  match p.expandHome (.ofText text) with
  | .error cause => .error (.badPath cause)
  | .ok path =>
    match p.resolve true path with
    | .error (.system .noEntry _) => .error (.missing path.toText)
    | .error (.system cause spot) => .error (.unresolved path.toText (.system cause spot))
    | .error cause => .error (.badPath cause)
    | .ok resolved =>
      match p.stat resolved.toText with
      | .ok (.file _ _) =>
        if extensions.contains (Text.lower resolved.suffix) then .ok resolved
        else .error (.notStylesheet resolved.toText)
      | .error (.system .nameTooLong spot) => .error (.badPath (.system .nameTooLong spot))
      | _ => .error (.notRegular resolved.toText)

def sizeOf (p : Place) (path : Path) : Except StylesheetReadError Nat :=
  match p.stat path.toText with
  | .error (.system cause spot) => .error (.inaccessible path.toText (.system cause spot))
  | .error cause => .error (.other (.file cause))
  | .ok (.file bytes _) => .ok bytes.size
  | .ok _ => .error (.notRegular path.toText)

/-- The text of a file of any size. A file that is not there or is a directory is reported as
inaccessible; other failures are passed on. -/
def readAny (p : Place) (path : Path) : Except StylesheetReadError String :=
  match p.readText path.toText with
  | .ok text => .ok text
  | .error (.file (.system cause spot)) =>
    match cause with
    | .noEntry | .notDirectory | .isDirectory =>
      .error (.inaccessible path.toText (.system cause spot))
    | .nameTooLong | .tooManyLinks => .error (.other (.file (.system cause spot)))
  | .error cause => .error (.other cause)

/-- The text of a stylesheet that is not larger than `limit` bytes. -/
def read (p : Place) (path : Path) (limit : Int) : Except StylesheetReadError String := do
  let size ← sizeOf p path
  if limit < size then throw (.tooLarge path.toText limit)
  match readAny p path with
  | .error (.other .notUtf8) => throw (.notUtf8 path.toText)
  | read => read

/-- The variable of the environment that sets the size limit. -/
def limitVariable : String := "CSS_SCANNER_MAX_FILE_SIZE"

inductive LimitError where
  | notNumber (text : String)
  | notPositive (limit : Int)
  deriving DecidableEq, Repr, Inhabited

def LimitError.message : LimitError → String
  | .notNumber text => s!"Invalid value for {limitVariable}: {text} (expected positive integer)"
  | .notPositive limit => s!"{limitVariable} must be a positive integer, got {limit}."

/-- The size limit that the environment sets; without one, the given limit. -/
def sizeLimit (setting : Option String) (given : Int) : Except LimitError Int :=
  match setting with
  | none => .ok given
  | some text =>
    match Text.integer? text with
    | none => .error (.notNumber text)
    | some limit => if 0 < limit then .ok limit else .error (.notPositive limit)

end Stylesheet

end CssHighlight
