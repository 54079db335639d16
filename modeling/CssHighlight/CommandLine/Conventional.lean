import CssHighlight.CommandLine.Frontend
import CssHighlight.CommandLine.Help
import CssHighlight.CommandLine.Options
import CssHighlight.Text.ControlSequence

/-!
# A conventional frontend

The frontend of the program as it is installed. A request for the help text or the version goes
before everything else. Otherwise the values of the options are checked in the order in which the
options were first used, and then the file. Control sequences are taken out of all that it prints.
-/
namespace CssHighlight.CommandLine

/-- Why arguments do not ask for anything. -/
inductive Refusal where
  | usage (cause : UsageError)
  /-- A path cannot be checked. -/
  | path (cause : FileError)
  deriving DecidableEq, Repr

namespace OptionUse

def foldValue? : OptionUse → Option Bool
  | .fold on => some on
  | _ => none

def dialectValue? : OptionUse → Option String
  | .dialect value => some value
  | _ => none

def formatValue? : OptionUse → Option String
  | .format value => some value
  | _ => none

def keywordsValue? : OptionUse → Option String
  | .keywords path => some path
  | _ => none

/-- Information that is given without a look at the other arguments. -/
def information? : OptionUse → Option String
  | .help => some helpText
  | .version => some versionText
  | _ => none

end OptionUse

def lastValue? {α : Type} (value? : OptionUse → Option α) (uses : List OptionUse) : Option α :=
  (uses.filterMap value?).getLast?

def choose (name : String) (choices : List String) :
    Option String → Except Refusal (Option String)
  | none => .ok none
  | some value =>
    if choices.contains value then .ok (some value)
    else .error (.usage (.notAChoice name value choices))

/-- Accepts the path of a file that exists and is no directory. -/
def checkFile (p : Place) (name path : String) : Except Refusal Unit :=
  match p.stat path with
  | .ok .directory => .error (.usage (.isDirectory name path))
  | .ok _ => .ok ()
  | .error (.system _ _) => .error (.usage (.noSuchFile name path))
  | .error cause => .error (.path cause)

def chosenDialect (uses : List OptionUse) : Except Refusal (Option String) :=
  choose "--dialect" (Dialect.all.map Dialect.label) (lastValue? OptionUse.dialectValue? uses)

def chosenFormat (uses : List OptionUse) : Except Refusal (Option String) :=
  choose "--format" ["tokens", "lines"] (lastValue? OptionUse.formatValue? uses)

def chosenKeywords (p : Place) (uses : List OptionUse) : Except Refusal (Option String) :=
  match lastValue? OptionUse.keywordsValue? uses with
  | none => .ok none
  | some path => (checkFile p "--keywords" path).map fun _ => some path

/-- Checks the value that counts for the option of a use. -/
def checkUse (p : Place) (uses : List OptionUse) : OptionUse → Except Refusal Unit
  | .dialect _ => (chosenDialect uses).map fun _ => ()
  | .format _ => (chosenFormat uses).map fun _ => ()
  | .keywords _ => (chosenKeywords p uses).map fun _ => ()
  | _ => .ok ()

namespace Arguments

/-- The paths among the arguments. -/
def paths (a : Arguments) : List String :=
  a.files ++ a.uses.filterMap OptionUse.keywordsValue?

def invocation (p : Place) (a : Arguments) : Except Refusal Invocation := do
  for use in a.uses do checkUse p a.uses use
  match a.files with
  | [] => throw (.usage .fileMissing)
  | file :: extra =>
    checkFile p "FILEPATH" file
    if !extra.isEmpty then throw (.usage (.extraArguments extra))
    return {
      file := file
      dialect := ← chosenDialect a.uses
      fold := lastValue? OptionUse.foldValue? a.uses
      format := (← chosenFormat a.uses).getD "tokens"
      keywordsFile := ← chosenKeywords p a.uses
      verbose := a.uses.contains .verbose }

end Arguments

/-- The end of a run for wrong arguments or settings, with or without a reminder of the usage. -/
def misuseEnding (reminds : Bool) (message : String) : Ending :=
  let reminder := if reminds then usageLine ++ helpHint ++ "\n" else ""
  ⟨2, "", reminder ++ Text.plain s!"Error: {message}\n"⟩

def UsageError.ending (cause : UsageError) : Ending :=
  misuseEnding cause.showsUsage cause.message

namespace Frontend

/-- What the frontend makes of the arguments once their spelling is right. -/
def answer (p : Place) (a : Arguments) : Reading :=
  match a.uses.findSome? OptionUse.information? with
  | some text => .ended ⟨0, text, ""⟩
  | none =>
    match a.invocation p with
    | .ok invocation => .accepted invocation
    | .error (.usage cause) => .ended cause.ending
    | .error (.path cause) => .failed cause

def conventional : Frontend where
  read p arguments :=
    match Arguments.read arguments with
    | .error cause => .ended cause.ending
    | .ok a => answer p a
  misuse message := misuseEnding true s!"Invalid value: {message}"
  plain message := ⟨1, "", Text.plain s!"Error: {message}\n"⟩
  echo row := Text.plain row ++ "\n"

end Frontend

end CssHighlight.CommandLine
