import CssHighlight.Text.Blank
import CssHighlight.Text.Case
import CssHighlight.Text.Quoted

/-!
# Dialects

The style sheet languages that the scanner knows. Plain CSS is the standard one; Scss adds
`$variables`, `#{…}` interpolation and `%placeholders`, Less adds `@variables` and `@{…}`
interpolation, and Hss adds `$variables` only.
-/
namespace CssHighlight

inductive Dialect where
  | standard
  | scss
  | less
  | hss
  deriving DecidableEq, Repr, Inhabited

namespace Dialect

def all : List Dialect := [.standard, .scss, .less, .hss]

def code (dialect : Dialect) : Nat :=
  all.idxOf dialect

/-- The name that settings and options use. -/
def label : Dialect → String
  | .standard => "standard"
  | .scss => "scss"
  | .less => "less"
  | .hss => "hss"

def name : Dialect → String
  | .standard => "STANDARD"
  | .scss => "SCSS"
  | .less => "LESS"
  | .hss => "HSS"

/-- The dialect that a setting names; blanks around the name and its case do not matter. -/
def ofLabel? (label : String) : Option Dialect :=
  let sought := Text.upper (Text.trim label)
  all.find? (·.name == sought)

def unknownMessage (label : String) : String :=
  "Unknown dialect " ++ Text.quoted label ++ " (expected one of: " ++
    ", ".intercalate (all.map Dialect.label) ++ ")"

end Dialect

end CssHighlight
