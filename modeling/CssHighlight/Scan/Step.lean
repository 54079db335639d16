import CssHighlight.Scan.Token

/-!
# One step of a scan

The rules that apply inside runs. A run either goes on with the current character, or ends in
front of it; then the character is looked at once more, under the style that goes on behind the
run. A run that ends behind the current character names the style that starts there.
-/
namespace CssHighlight

namespace Machine

/-- Whether a number goes on with `c`. A colour goes on with name characters. -/
def continuesNumber (c : Char) (rest : List Char) (m : Machine) : Bool :=
  let next := rest.head?
  if m.runText.head? = some '#' then isNameChar c
  else if isDigit c then true
  else if c = '.' then m.previous != some '.' && next.any isDigit
  else if c = 'e' ∨ c = 'E' then
    next.any isDigit || ((next == some '+' || next == some '-') && rest.tail.head?.any isDigit)
  else if c = '+' ∨ c = '-' then
    (m.previous == some 'e' || m.previous == some 'E') && next.any isDigit
  else false

/-- Ends the run in progress in front of `c` and looks for a token there. -/
def leave (o : ScanOptions) (c : Char) (rest : List Char) (m : Machine) : Machine :=
  (m.start .default (c :: rest)).startToken o c rest

/-- Ends a run of name characters whose final style is known. -/
def leaveRun (o : ScanOptions) (c : Char) (rest : List Char) (m : Machine) : Machine :=
  (m.update fun context => { context with lastStyle := m.style }).leave o c rest

/-- The first character of a text that separates no tokens. -/
def nextSolid (text : List Char) : Option Char :=
  text.find? fun c => !isSeparator c

def isClassified (dialect : Dialect) : Style → Bool
  | .identifier | .pseudoClass | .pseudoElement => true
  | .atRule => dialect == .less
  | _ => false

/-- Ends a run of name characters in front of `c`. The parenthesis that opens a bare address is
punctuation, and the address starts behind it. -/
def closeRun (o : ScanOptions) (c : Char) (rest : List Char) (m : Machine) : Machine :=
  if isClassified o.dialect m.style then
    let name := m.runName
    -- Behind a function's name the argument decides, and else what follows the name.
    let next :=
      if m.style = .identifier then nextSolid (if c = '(' then rest else c :: rest) else none
    if m.style = .identifier ∧ c = '(' ∧ opensUrl name next o.dialect = true then
      ((m.update fun context => context.unfold.enterParen).start .operator (c :: rest)).thenStart
        .url
    else
      let (style, context) :=
        classifyRun m.style name ⟨some c, next, o.dialect, o.keywords⟩ m.context
      ({ m with context := context }.restyle style).leaveRun o c rest
  else m.leaveRun o c rest

def closingQuote : Style → Option Char
  | .singleQuoted => some '\''
  | .doubleQuoted => some '"'
  | _ => none

def stepQuoted (o : ScanOptions) (c : Char) (rest : List Char) (m : Machine) : Machine :=
  let text := c :: rest
  let next := rest.head?
  if c = '\\' then
    -- A backslash in front of a line break escapes nothing; the line break does not end the string.
    if next.any isLineBreak then m
    else
      let digits := if next.any isHexDigit then escapeDigits else 1
      ((m.update fun context => { context with escape := ⟨m.style, digits⟩ }).start
        .escapeChar text).hold 1
  else if c = ')' ∧ m.style = .url then m.leave o c rest
  else if closingQuote m.style = some c then m.thenStart .default
  else if next = some '{' ∧ leadsInterpolation o.dialect c = true then
    ((m.update fun context => { context.unfold with interpolation := some m.style }).start
      .operator text).hold 1
  else m

/-- Looks at `c` inside a unicode range. A hyphen in front of a range character starts the other
end of the range. -/
def stepUnicodeRange (o : ScanOptions) (c : Char) (rest : List Char) (m : Machine) : Machine :=
  if c = '-' ∧ rest.head?.any isRangeChar = true then
    m.update fun context =>
      { context with escape := { context.escape with digitsLeft := unicodeRangeDigits } }
  else
    let m := m.update fun context =>
      { context with
        escape := { context.escape with digitsLeft := context.escape.digitsLeft - 1 } }
    if m.context.escape.digitsLeft ≤ 0 ∨ isRangeChar c = false then m.leave o c rest else m

/-- Looks at `c` under the current style, which is not that of an escape sequence. -/
def stepRun (o : ScanOptions) (c : Char) (rest : List Char) (m : Machine) : Machine :=
  match m.style with
  | .default => m.startToken o c rest
  | .operator | .operatorInCalc | .htmlCommentDelimiter => m.leave o c rest
  | .number =>
    if m.continuesNumber c rest then m
    else if startsName c rest.head? then m.restyle .dimension
    else if c = '%' then m.thenStart .default
    else m.leave o c rest
  | .blockComment | .blockCommentDoc =>
    if c = '*' ∧ rest.head? = some '/' then
      ((m.update Context.refold).hold 1).thenStart .default
    else m
  | .lineComment | .lineCommentDoc => if m.atLineStart then m.leave o c rest else m
  | .dimension | .variableName | .atRule | .identifier | .pseudoClass | .pseudoElement =>
    if isRunChar c then m else m.closeRun o c rest
  | .singleQuoted | .doubleQuoted | .url => m.stepQuoted o c rest
  | .unicodeRange => m.stepUnicodeRange o c rest
  | _ => m

def look (o : ScanOptions) (c : Char) (rest : List Char) (m : Machine) : Machine :=
  if m.style = .escapeChar then
    let m := m.update fun context =>
      { context with
        escape := { context.escape with digitsLeft := context.escape.digitsLeft - 1 } }
    if m.context.escape.digitsLeft ≤ 0 ∨ isHexDigit c = false then
      (m.start m.context.escape.outer (c :: rest)).stepRun o c rest
    else m
  else m.stepRun o c rest

def step (o : ScanOptions) (c : Char) (rest : List Char) (m : Machine) : Machine :=
  if m.held = 0 then (m.look o c rest).take o c rest
  else { m with held := m.held - 1 }.take o c rest

def run (o : ScanOptions) : Nat → List Char → Machine → Machine
  | 0, _, m => m
  | _ + 1, [], m => m
  | count + 1, c :: rest, m => run o count rest (m.step o c rest)

end Machine

end CssHighlight
