import CssHighlight.Dialect

/-!
# Character classes

The classes of characters that start, continue or separate tokens. A neighbour is an optional
character: there is none beyond the ends of the text, and no class holds of it.
-/
namespace CssHighlight

def isDigit (c : Char) : Bool :=
  '0' ≤ c && c ≤ '9'

def isHexDigit (c : Char) : Bool :=
  isDigit c || ('a' ≤ c && c ≤ 'f') || ('A' ≤ c && c ≤ 'F')

def isLineBreak (c : Char) : Bool :=
  c == '\n' || c == '\r'

/-- The six ASCII characters that separate tokens. -/
def isSeparator (c : Char) : Bool :=
  c == ' ' || c == '\t' || c == '\n' || c == '\r' || c == '\x0c' || c == '\x0b'

/-- Printable ASCII without the space. -/
def isGraphic (c : Char) : Bool :=
  '!' ≤ c && c ≤ '~'

/-- ASCII letters, the underscore and everything beyond ASCII. -/
def isNameStart (c : Char) : Bool :=
  ('a' ≤ c && c ≤ 'z') || ('A' ≤ c && c ≤ 'Z') || c == '_' || 0x80 ≤ c.toNat

def isNameChar (c : Char) : Bool :=
  isNameStart c || isDigit c

/-- Characters that may stand directly after the `-`, `@`, `$` or `:` that leads a name. -/
def isAfterLeader (c : Char) : Bool :=
  isNameStart c || c == '-'

/-- Characters of a run of name characters, hyphens included. -/
def isRunChar (c : Char) : Bool :=
  isNameChar c || c == '-'

def isRangeChar (c : Char) : Bool :=
  isHexDigit c || c == '?'

/-- Whether a name starts here, alone or behind a hyphen. -/
def startsName (c : Char) (next : Option Char) : Bool :=
  isNameStart c || (c == '-' && next.any isAfterLeader)

/-- Whether a name, a `@name` or, outside plain CSS, a `$name` starts here. -/
def startsRun (dialect : Dialect) (c : Char) (next : Option Char) : Bool :=
  isNameStart c ||
    ((c == '-' || c == '@' || (c == '$' && dialect != .standard)) && next.any isAfterLeader)

def startsNumber (c : Char) (next : Option Char) : Bool :=
  isDigit c || (c == '.' && next.any isDigit)

/-- Whether an interpolation of the dialect opens, provided that a brace follows. -/
def leadsInterpolation (dialect : Dialect) (c : Char) : Bool :=
  (c == '#' && dialect == .scss) || (c == '@' && dialect == .less)

end CssHighlight
