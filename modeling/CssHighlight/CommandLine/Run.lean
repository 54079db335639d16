import CssHighlight.CommandLine.Failure
import CssHighlight.CommandLine.Listing
import CssHighlight.CommandLine.Trace

/-!
# A run of the program

A run looks for the stylesheet, puts its configuration together, reads and scans it, and prints a
listing. Its result depends on its frontend, on the files of a place, on the environment's size
limit and on the arguments only.
-/
namespace CssHighlight.CommandLine

structure Outcome extends Ending where
  failure : Option Failure
  deriving Inhabited

namespace Outcome

def ofEnding (ending : Ending) : Outcome :=
  { ending with failure := none }

def ofFailure (f : Frontend) (failure : Failure) : Outcome :=
  { failure.report.ending f with failure := some failure }

/-- The failure that the run has no words for. -/
def unexpected? (outcome : Outcome) : Option Failure :=
  outcome.failure.filter fun failure => failure.report == .none

end Outcome

namespace Invocation

def locate (p : Place) (i : Invocation) : Except Failure Path :=
  (Stylesheet.locate p i.file).mapError Failure.stylesheet

/-- The values that the arguments put in the place of the configuration's. -/
def overrides (i : Invocation) : List (String × Value) :=
  [("dialect", (i.dialect.map Value.str).getD .null),
   ("fold", (i.fold.map Value.bool).getD .null),
   ("keywords_file", (i.keywordsFile.map Value.str).getD .null)]

def config (p : Place) (path : Path) (i : Invocation) : Except Failure Config :=
  (Config.build p path.parent (Stylesheet.dialectOf path) i.overrides).mapError Failure.search

/-- The greatest size that the environment or, without a word from it, the configuration
allows. -/
def sizeLimit (limitSetting : Option String) (config : Config) : Except Failure Int :=
  match config.checkedMaxFileSize with
  | .error cause => .error (.search (.config cause))
  | .ok size => (Stylesheet.sizeLimit limitSetting size).mapError Failure.limit

def readText (p : Place) (path : Path) (limit : Int) : Except Failure String :=
  (Stylesheet.read p path limit).mapError Failure.text

def scan (p : Place) (config : Config) (text : String) : Except Failure Document :=
  match (Document.ofText text).scanAll p { config := config } with
  | .ok (scanned, _) => .ok scanned
  | .error cause => .error (.scan cause)

def rows (i : Invocation) (d : Document) : List String :=
  if i.format = "lines" then lineRows d else tokenRows d

def log (i : Invocation) (d : Document) : String :=
  if i.verbose then scanEntry 0 d.length .default .initial ++ "\n" else ""

def run (f : Frontend) (p : Place) (limitSetting : Option String) (i : Invocation) :
    Except Failure Ending := do
  let path ← i.locate p
  let config ← i.config p path
  let limit ← sizeLimit limitSetting config
  let text ← readText p path limit
  let document ← scan p config text
  return ⟨0, String.join ((i.rows document).map f.echo), i.log document⟩

end Invocation

def run (f : Frontend) (p : Place) (limitSetting : Option String) (arguments : List String) :
    Outcome :=
  match f.read p arguments with
  | .ended ending => .ofEnding ending
  | .failed cause => .ofFailure f (.path cause)
  | .accepted invocation =>
    match invocation.run f p limitSetting with
    | .ok ending => .ofEnding ending
    | .error failure => .ofFailure f failure

end CssHighlight.CommandLine
