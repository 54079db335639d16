import CssHighlight.Dialect
import CssHighlight.Text.Similarity

/-!
# Command line options

The arguments are read into the options that were used and the files that are left. Options may
stand before or behind the file, and two hyphens end them. Of repeated options the last one
counts. Wrong spellings are found here; the values are checked by `Conventional`.
-/
namespace CssHighlight.CommandLine

/-- A use of an option, with its value as it was given. -/
inductive OptionUse where
  | version
  | help
  | verbose
  | fold (on : Bool)
  | dialect (value : String)
  | format (value : String)
  | keywords (path : String)
  deriving DecidableEq, Repr

inductive Spelling where
  | plain (use : OptionUse)
  | withValue (use : String → OptionUse)

/-- The spellings that start with two hyphens. -/
def longSpellings : List (String × Spelling) :=
  [("--version", .plain .version), ("--dialect", .withValue .dialect),
   ("--fold", .plain (.fold true)), ("--no-fold", .plain (.fold false)),
   ("--format", .withValue .format), ("--keywords", .withValue .keywords),
   ("--verbose", .plain .verbose), ("--help", .plain .help)]

/-- The letters that may follow a single hyphen. -/
def shortSpellings : List (Char × OptionUse) :=
  [('v', .verbose)]

inductive UsageError where
  | noSuchOption (name : String) (similar : List String)
  | valueMissing (name : String)
  | valueUnexpected (name : String)
  | notAChoice (name value : String) (choices : List String)
  | noSuchFile (name path : String)
  | isDirectory (name path : String)
  | fileMissing
  | extraArguments (arguments : List String)
  deriving DecidableEq, Repr, Inhabited

namespace UsageError

def message : UsageError → String
  | .noSuchOption name [] => s!"No such option: {name}"
  | .noSuchOption name [similar] => s!"No such option: {name} Did you mean {similar}?"
  | .noSuchOption name similar =>
    s!"No such option: {name} (Possible options: " ++ ", ".intercalate similar ++ ")"
  | .valueMissing name => s!"Option {Text.quoted name} requires an argument."
  | .valueUnexpected name => s!"Option {Text.quoted name} does not take a value."
  | .notAChoice name value choices =>
    s!"Invalid value for '{name}': {Text.quoted value} is not one of " ++
      ", ".intercalate (choices.map Text.quoted) ++ "."
  | .noSuchFile name path =>
    s!"Invalid value for '{name}': File {Text.quoted path} does not exist."
  | .isDirectory name path =>
    s!"Invalid value for '{name}': File {Text.quoted path} is a directory."
  | .fileMissing => "Missing argument 'FILEPATH'."
  | .extraArguments [argument] => s!"Got unexpected extra argument ({argument})"
  | .extraArguments arguments =>
    "Got unexpected extra arguments (" ++ " ".intercalate arguments ++ ")"

/-- Whether a reminder of the usage goes before the message. -/
def showsUsage : UsageError → Bool
  | .valueMissing _ => false
  | .valueUnexpected _ => false
  | _ => true

end UsageError

/-- Splits an argument at its first equals sign. -/
def splitValue (argument : String) : String × Option String :=
  let chars := argument.toList
  let name := String.ofList (chars.takeWhile (· ≠ '='))
  match chars.dropWhile (· ≠ '=') with
  | _ :: value => (name, some (String.ofList value))
  | [] => (name, none)

/-- The options that the letters behind a single hyphen stand for. -/
def shortUses (letters : List Char) : Except UsageError (List OptionUse) :=
  letters.mapM fun letter =>
    match shortSpellings.lookup letter with
    | some use => .ok use
    | none => .error (.noSuchOption (String.ofList ['-', letter]) [])

structure Arguments where
  uses : List OptionUse
  files : List String
  deriving DecidableEq, Repr

namespace Arguments

def withUses (uses : List OptionUse) (a : Arguments) : Arguments :=
  { a with uses := uses ++ a.uses }

def withFile (file : String) (a : Arguments) : Arguments :=
  { a with files := file :: a.files }

def read : List String → Except UsageError Arguments
  | [] => .ok ⟨[], []⟩
  | argument :: rest =>
    if argument = "--" then .ok ⟨[], rest⟩
    else
      match argument.toList with
      | '-' :: letter :: letters =>
        let (name, value) := splitValue argument
        match longSpellings.lookup name, value with
        | some (.plain use), none => (read rest).map (withUses [use])
        | some (.plain _), some _ => .error (.valueUnexpected name)
        | some (.withValue use), some value => (read rest).map (withUses [use value])
        | some (.withValue use), none =>
          match rest with
          | value :: rest => (read rest).map (withUses [use value])
          | [] => .error (.valueMissing name)
        | none, _ =>
          if letter = '-' then
            .error (.noSuchOption name (Text.suggestions name (longSpellings.map (·.1))))
          else
            match shortUses (letter :: letters) with
            | .error e => .error e
            | .ok uses => (read rest).map (withUses uses)
      | _ => (read rest).map (withFile argument)

end Arguments

end CssHighlight.CommandLine
