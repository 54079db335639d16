import CssHighlight.CommandLine.Frontend
import CssHighlight.Config.Search
import CssHighlight.Highlight
import CssHighlight.Stylesheet

/-!
# Failures of a run

A run ends early when a path among its arguments cannot be checked, or when the stylesheet or one
of the files that go with it cannot be used. A wrong file or setting is reported as a misuse, and a
file that cannot be read with a message alone. For other failures the run has no words.
-/
namespace CssHighlight.CommandLine

inductive Failure where
  /-- A path among the arguments cannot be checked. -/
  | path (cause : FileError)
  | stylesheet (cause : StylesheetError)
  | search (cause : SearchError)
  | limit (cause : Stylesheet.LimitError)
  | text (cause : StylesheetReadError)
  | scan (cause : ScanError)
  deriving Inhabited

inductive Report where
  | misuse (message : String)
  | plain (message : String)
  /-- There are no words for it. -/
  | none
  deriving DecidableEq, Repr

/-- The end of a run with a report. -/
def Report.ending (f : Frontend) : Report → Ending
  | .misuse message => f.misuse message
  | .plain message => f.plain message
  | .none => ⟨1, "", ""⟩

namespace Failure

def message : Failure → String
  | .path cause => cause.message
  | .stylesheet cause => cause.message
  | .search cause => cause.message
  | .limit cause => cause.message
  | .text cause => cause.message
  | .scan cause => cause.message

def report : Failure → Report
  | .path _ => .none
  | .stylesheet (.badPath .nullInPath) => .misuse FileError.nullInPath.message
  | .stylesheet (.badPath _) => .none
  | .stylesheet cause => .misuse cause.message
  | .search (.config cause) => .misuse cause.message
  | .search _ => .none
  | .limit cause => .plain cause.message
  | .text cause => .plain cause.message
  | .scan (.keywords (.other _)) => .none
  | .scan (.keywords cause) => .plain cause.message
  | .scan _ => .none

end Failure

end CssHighlight.CommandLine
