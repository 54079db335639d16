import CssHighlight.CharClass
import CssHighlight.Context
import CssHighlight.Keyword.Set

/-!
# Classification of finished runs

When a run of name characters ends, its final style depends on what stood before it, on the next
significant character, on the nesting around it and on the keyword lists. Its name is the
lower-case text of the run, or nothing when the run is too long to be a keyword.
-/
namespace CssHighlight

/-- The deepest nesting of selector lists that is counted. -/
def maxSelectorDepth : Int := 255

/-- Pseudo-classes whose arguments are selectors. -/
def selectorPseudoClasses : List String :=
  ["is", "has", "not", "where", "current"]

/-- Functions whose argument may be a bare address. -/
def urlFunctions : List String :=
  ["url", "url-prefix"]

/-- Whether the parenthesis behind a function's name opens a bare address; `next` is the first
significant character inside. A quote starts a string, and in Scss a `$` starts a variable. -/
def opensUrl (name : Option String) (next : Option Char) (dialect : Dialect) : Bool :=
  name.any urlFunctions.contains &&
    next != some '\'' && next != some '"' && next != some ')' &&
    !(next == some '$' && dialect == .scss)

/-- What surrounds a finished run. -/
structure RunEnd where
  /-- The character that ended the run. -/
  stop : Option Char
  /-- The next significant character, inside the parenthesis when one ended the run. -/
  next : Option Char
  dialect : Dialect
  keywords : KeywordSet

/-- The style of a plain name; a function and a declaration's name leave a trace in the
context. -/
def classifyName (name : Option String) (e : RunEnd) (c : Context) : Style × Context :=
  if e.stop = some '(' then
    (.function,
      if e.keywords.mathFunction.containsPrefixed "(" name then { c with mathPending := true }
      else c)
  else if c.before = some '!' ∧ name = some "important" then (.important, c)
  else if c.interpolation.isSome then
    (if e.dialect = .less ∧ c.before = some '{' then .variableName else .identifier, c)
  else if e.next = some ':' ∧ c.parenDepth ≠ 0 then (.property, c)
  else if c.before = some ':' ∨ c.before = some '=' ∨ (c.parenDepth = 0 ∧ c.inValue = true) then
    (.value, c)
  else if c.inValue then (.identifier, c)
  else if c.inBrackets then (.attributeName, c)
  else if c.before = some '.' then (.className, c)
  else if c.before = some '#' then (.idName, c)
  else if c.before = some '%' ∧ e.dialect = .scss then (.placeholder, c)
  else if e.next = some ':' ∧ (c.before = some ';' ∨ c.before = some '{') then
    (if e.keywords.property.contains name then .property else .unknownProperty,
      { c with inValue := true })
  else if c.parenDepth = c.selectorDepth ∧ e.next ≠ some '(' then (.tag, c)
  else (.identifier, c)

/-- The name without its first `n` characters, which lead it. -/
def bareName (n : Nat) (name : Option String) : Option String :=
  name.map fun s => String.ofList (s.toList.drop n)

/-- A `@name` that is no at-rule, or stands inside a value, is a variable. -/
def classifyAtRule (name : Option String) (keywords : KeywordSet) (c : Context) : Style :=
  if c.inValue || !keywords.atRule.contains (bareName 1 name) then .variableName else .atRule

/-- A known pseudo-class whose arguments are selectors opens a selector list. -/
def classifyPseudoClass (name : Option String) (e : RunEnd) (c : Context) : Style × Context :=
  let bare := bareName 1 name
  if e.keywords.pseudoClass.containsPrefixed "(" bare then
    (.pseudoClass,
      if e.stop = some '(' ∧ bare.any selectorPseudoClasses.contains then
        { c with selectorDepth := min (c.selectorDepth + 1) maxSelectorDepth }
      else c)
  else (.unknownPseudoClass, c)

def classifyPseudoElement (name : Option String) (keywords : KeywordSet) : Style :=
  if keywords.pseudoElement.containsPrefixed "(" (bareName 2 name) then .pseudoElement
  else .unknownPseudoElement

/-- The final style of a run that was scanned under `style`. -/
def classifyRun (style : Style) (name : Option String) (e : RunEnd) (c : Context) :
    Style × Context :=
  match style with
  | .identifier => classifyName name e c
  | .atRule => (classifyAtRule name e.keywords c, c)
  | .pseudoClass => classifyPseudoClass name e c
  | .pseudoElement => (classifyPseudoElement name e.keywords, c)
  | style => (style, c)

end CssHighlight
