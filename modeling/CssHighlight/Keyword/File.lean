import CssHighlight.Files.Text
import CssHighlight.Keyword.Set

/-!
# Keyword files

A keyword file gives some of the five lists, each as one text of words or as a list of them. Lists
that it does not give stay the built-in ones.
-/
namespace CssHighlight

/-- Why keyword lists cannot be loaded. -/
inductive KeywordError where
  | unreadable (path : String) (cause : FileError)
  | malformed (path : String)
  | unknownLists (path : String) (names : List String)
  | notWords (path name : String)
  /-- What is not the fault of the file's layout is passed on as it is. -/
  | other (cause : TableError)
  deriving DecidableEq, Repr, Inhabited

def KeywordError.message : KeywordError → String
  | .unreadable path cause => s!"Cannot load keywords from {path}: {cause.message}"
  | .malformed path =>
    s!"Cannot load keywords from {path}: {Toml.TomlError.malformed.message}"
  | .unknownLists path names =>
    s!"Unknown keyword lists in {path}: " ++ ", ".intercalate names
  | .notWords path name => s!"`{name}` in {path} must be a string or a list of strings"
  | .other cause => cause.message

/-- What is said about a failure to read a keyword file. -/
def KeywordError.ofTableError (path : String) : TableError → KeywordError
  | .read (.file (.system cause spot)) => .unreadable path (.system cause spot)
  | .toml .malformed => .malformed path
  | e => .other e

namespace KeywordSet

/-- The words of a list in a keyword file. -/
def wordsOf? : Value → Option (List String)
  | .str text => some (Text.words text)
  | .list items => items.mapM fun item => match item with
    | .str word => some word
    | _ => none
  | _ => none

/-- The names of lists that do not exist, in order. -/
def unknownNames (entries : Toml.Entries) : List String :=
  KeywordList.sortWords
    ((entries.map (·.1)).filter fun name => (KeywordKind.ofLabel? name).isNone)

/-- Takes one list over from a keyword file. -/
def putEntry (path : String) (set : KeywordSet) (entry : String × Value) :
    Except KeywordError KeywordSet :=
  match KeywordKind.ofLabel? entry.1, wordsOf? entry.2 with
  | some kind, some words => .ok (set.put (.ofWords words) kind)
  | _, _ => .error (.notWords path entry.1)

/-- The lists of a table. -/
def ofEntries (path : String) (entries : Toml.Entries) : Except KeywordError KeywordSet :=
  let unknown := unknownNames entries
  if unknown.isEmpty then entries.foldlM (putEntry path) builtin
  else .error (.unknownLists path unknown)

/-- The lists of a keyword file. -/
def load (p : Place) (path : Path) : Except KeywordError KeywordSet :=
  match p.readTable path.toText with
  | .ok entries => ofEntries path.toText entries
  | .error e => .error (.ofTableError path.toText e)

end KeywordSet

end CssHighlight
