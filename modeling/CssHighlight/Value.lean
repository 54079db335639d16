import CssHighlight.Binary64.Shortest
import CssHighlight.Dialect

/-!
# Values

The values that a settings file can hold. They are kept as they were written until they are
checked, so that a wrong one can be shown in a message.
-/
namespace CssHighlight

inductive Value where
  | null
  | bool (b : Bool)
  | int (n : Int)
  | float (x : Binary64)
  | str (s : String)
  | dialect (d : Dialect)
  /-- A date, a time of day or both, in its standard spelling. -/
  | date (s : String)
  | list (items : List Value)
  | table (entries : List (String × Value))
  deriving Inhabited

namespace Value

mutual

def toText : Value → String
  | .null => "None"
  | .bool b => if b then "True" else "False"
  | .int n => toString n
  | .float x => x.toText
  | .str s => Text.quoted s
  | .dialect d => s!"<Dialect.{d.name}: {d.code}>"
  | .date s => s
  | .list items => "[" ++ ", ".intercalate (itemTexts items) ++ "]"
  | .table entries => "\x7b" ++ ", ".intercalate (entryTexts entries) ++ "\x7d"

def itemTexts : List Value → List String
  | [] => []
  | item :: rest => item.toText :: itemTexts rest

def entryTexts : List (String × Value) → List String
  | [] => []
  | (key, value) :: rest => (Text.quoted key ++ ": " ++ value.toText) :: entryTexts rest

end

/-- The entry of a table, the last one if a key occurs twice. -/
def entry? (entries : List (String × Value)) (key : String) : Option Value :=
  (entries.reverse.find? (·.1 == key)).map (·.2)

end Value

end CssHighlight
