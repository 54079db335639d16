import CssHighlight.Scan.Machine

/-!
# Starts of tokens

The rules that apply at a character outside all runs: they decide which token starts there, and
they follow the punctuation that changes the nesting.
-/
namespace CssHighlight

/-- The deepest nesting of math functions and of parentheses that is counted. -/
def maxMathDepth : Int := 63

def maxParenDepth : Int := 255

/-- The most hexadecimal digits of an escape sequence. -/
def escapeDigits : Int := 6

/-- The characters of one end of a unicode range, and the one before it. -/
def unicodeRangeDigits : Int := 7

namespace Context

/-- One more level of folding behind this line. -/
def unfold (c : Context) : Context :=
  { c with foldNext := c.foldNext + 1 }

def refold (c : Context) : Context :=
  { c with foldNext := c.foldNext - 1 }

def enterParen (c : Context) : Context :=
  { c with parenDepth := min (c.parenDepth + 1) maxParenDepth }

/-- Enters the arguments of a math function, or parentheses within them. -/
def enterMath (c : Context) : Context :=
  if c.mathDepth ≠ 0 ∨ c.mathPending = true then
    { c with mathPending := false, mathDepth := min (c.mathDepth + 1) maxMathDepth }
  else c

def leaveParen (c : Context) : Context :=
  { c with
    parenDepth := max (c.parenDepth - 1) 0
    mathDepth := max (c.mathDepth - 1) 0
    selectorDepth := max (c.selectorDepth - 1) 0 }

def newBlock (c : Context) : Context :=
  c.resetBlock false 0

/-- Whether an arithmetic sign joins two operands of a calculation here. -/
def joinsOperands (c : Context) : Bool :=
  c.mathDepth ≠ 0 &&
    (c.lastChar == some ')' || c.lastStyle == .number || c.lastStyle == .dimension)

end Context

namespace Machine

/-- Follows the punctuation `c`, whose run has just started. -/
def punctuate (o : ScanOptions) (c : Char) (m : Machine) : Machine :=
  match c with
  | '{' =>
    if m.previous.any (leadsInterpolation o.dialect) then
      m.update fun c => { c.unfold with interpolation := some .default }
    else m.update fun c => c.unfold.newBlock
  | '}' =>
    match m.context.interpolation with
    | some style => (m.update fun c => { c.refold with interpolation := none }).thenStart style
    | none => m.update fun c => c.refold.newBlock
  | '[' => m.update fun c => { c.unfold with inBrackets := true }
  | ']' => m.update fun c => { c.refold with inBrackets := false }
  | '(' => m.update fun c => c.unfold.enterParen.enterMath
  | ')' => m.update fun c => c.refold.leaveParen
  | ':' =>
    if m.context.parenDepth = 0 ∧ m.context.lastStyle.isProperty = false then
      m.update fun c => { c with inValue := true }
    else m
  | ';' =>
    if m.context.parenDepth = 0 ∧ m.context.inBrackets = false then
      m.update fun c => { c with inValue := false }
    else m
  | '+' | '-' | '*' | '/' =>
    if m.context.joinsOperands then m.restyle .operatorInCalc else m
  | _ => m

/-- Whether a colour's `#` stands here: inside a value, or inside ordinary parentheses. -/
def expectsColour (c : Context) : Bool :=
  c.inValue || decide (c.selectorDepth < c.parenDepth)

/-- Starts the token at `c`, outside all runs. -/
def startToken (o : ScanOptions) (c : Char) (rest : List Char) (m : Machine) : Machine :=
  let text := c :: rest
  let next := rest.head?
  let third := rest.tail.head?
  -- A delimiter of several characters is held to its end, so that `/*/` does not close a comment.
  if c = '/' ∧ next = some '*' then
    let style := if third = some '!' ∨ third = some '*' then .blockCommentDoc else .blockComment
    ((m.update Context.unfold).start style text).hold 1
  else if c = '/' ∧ next = some '/' then
    let style := if third = some '!' ∨ third = some '/' then .lineCommentDoc else .lineComment
    (m.start style text).hold 1
  else if c = '\'' then m.start .singleQuoted text
  else if c = '"' then m.start .doubleQuoted text
  else if ['<', '!', '-', '-'].isPrefixOf text then (m.start .htmlCommentDelimiter text).hold 3
  else if ['-', '-', '>'].isPrefixOf text then (m.start .htmlCommentDelimiter text).hold 2
  else if startsNumber c next ∨
      (c = '#' ∧ expectsColour m.context = true ∧ next.any isHexDigit = true) then
    m.start .number text
  else if next = some '+' ∧ (c = 'u' ∨ c = 'U') ∧ m.context.inValue = true ∧
      (m.context.lastChar = some ':' ∨ m.context.lastChar = some ',') ∧
      third.any isRangeChar = true then
    ((m.update fun c =>
      { c with escape := { c.escape with digitsLeft := unicodeRangeDigits } }).start
        .unicodeRange text).hold 1
  else if startsRun o.dialect c next then
    -- What stands before a name is read when the name ends.
    (m.update fun c => { c with before := c.lastChar }).start
      (if c = '@' then .atRule else if c = '$' then .variableName else .identifier) text
  else if c = ':' ∧ next = some ':' ∧ third.any isAfterLeader = true then
    (m.start .pseudoElement text).hold 2
  else if c = ':' ∧ m.context.lastStyle.isProperty = false ∧ next.any isAfterLeader = true then
    (m.start .pseudoClass text).hold 1
  else if isGraphic c then (m.start .operator text).punctuate o c
  else m

end Machine

end CssHighlight
