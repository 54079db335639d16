import CssHighlight.LineState

/-!
# The scan log

With the option for it, a run logs the range and the context of its scan.
-/
namespace CssHighlight.CommandLine

def styleText (style : Style) : String :=
  s!"<Style.{style.name}: {style.code}>"

def charText (c : Option Char) : String :=
  Text.quoted (String.ofList c.toList)

def flagText (b : Bool) : String :=
  (Value.bool b).toText

def escapeText (escape : Escape) : String :=
  "EscapeSequence(outer_style=" ++ styleText escape.outer ++
    s!", digits_left={escape.digitsLeft})"

def contextText (c : Context) : String :=
  let fields : List (String × String) :=
    [("property_value", flagText c.inValue), ("attribute_selector", flagText c.inBrackets),
     ("calc_level", toString c.mathDepth), ("paren_count", toString c.parenDepth),
     ("selector_level", toString c.selectorDepth), ("ch_before", charText c.before),
     ("ch_prev_non_white", charText c.lastChar),
     ("style_prev_non_white", styleText c.lastStyle),
     ("variable_interpolation", (c.interpolation.map styleText).getD Value.null.toText),
     ("calc_func", flagText c.mathPending), ("escape", escapeText c.escape),
     ("fold_current", toString c.foldHere), ("fold_next", toString c.foldNext)]
  "ScanState(" ++ ", ".intercalate (fields.map fun field => s!"{field.1}={field.2}") ++ ")"

/-- The entry for a scan of the characters from `start` up to, and without, `stop`. -/
def scanEntry (start stop : Nat) (style : Style) (c : Context) : String :=
  s!"DEBUG css_scanner.lexer: Scanning [{start}, {stop}) from {style.name} with " ++
    contextText c

end CssHighlight.CommandLine
