import CssHighlight.Classify
import CssHighlight.Document.Lines
import CssHighlight.LineState

/-!
# The scanning machine

A scan reads a range of a text from left to right, once. Between two characters the machine holds
the run in progress, the context, and what it has finished: the styles of the runs behind it and
the data of the lines behind it. Every character is taken by exactly one call of `take`, under the
style that is current then; all that depends on the end of a line happens there.

The text of the run in progress, and the text that a rule looks ahead into, are suffixes of the
document. They reach beyond the range, so where a range ends does not change how it is styled.
-/
namespace CssHighlight

structure ScanOptions where
  dialect : Dialect
  /-- Whether fold levels are computed. -/
  fold : Bool
  keywords : KeywordSet

structure LineData where
  fold : Option Nat
  state : Nat
  deriving DecidableEq, Repr, Inhabited

structure Machine where
  style : Style
  /-- The document from the start of the run in progress on. -/
  runText : List Char
  /-- How many characters the run in progress has. -/
  runLength : Nat
  /-- How many of the coming characters belong to the run without being looked at. -/
  held : Nat
  /-- The style that starts behind the held characters. -/
  after : Option Style
  previous : Option Char
  /-- The coming character is the first one of its line. -/
  atLineStart : Bool
  context : Context
  /-- The styles of the runs behind the one in progress, the latest character first. -/
  painted : List Style
  /-- The lines that were finished, the latest first. -/
  lines : List LineData

namespace Machine

def update (m : Machine) (f : Context → Context) : Machine :=
  { m with context := f m.context }

/-- Ends the run in progress and starts one of another style at `text`. -/
def start (style : Style) (text : List Char) (m : Machine) : Machine :=
  { m with
    painted := List.replicate m.runLength m.style ++ m.painted
    style := style
    runText := text
    runLength := 0 }

def restyle (style : Style) (m : Machine) : Machine :=
  { m with style := style }

/-- Takes the current character, and `count` more, without looking at them. -/
def hold (count : Nat) (m : Machine) : Machine :=
  { m with held := count }

/-- Starts a style behind the current character. -/
def thenStart (style : Style) (m : Machine) : Machine :=
  { m with after := some style }

def styles (m : Machine) : List Style :=
  (List.replicate m.runLength m.style ++ m.painted).reverse

/-- The name of the run in progress: its text in lower case, or nothing when it is longer than
any keyword may be. -/
def runName (m : Machine) : Option String :=
  if m.runLength < 128 then some (String.ofList (Text.lowerChars (m.runText.take m.runLength)))
  else none

end Machine

namespace Context

/-- The least and the greatest fold level. -/
def clampFold (level : Int) : Int :=
  min (max level baseFold) FoldLevel.limit

/-- The context behind a line. An interpolation does not outlive its line. -/
def endLine (o : ScanOptions) (c : Context) : Context :=
  let next := if o.fold then clampFold c.foldNext else c.foldNext
  { c with interpolation := none, foldHere := next, foldNext := next }

def lineData (o : ScanOptions) (c : Context) : LineData where
  fold := if o.fold then some (FoldLevel.pack c.foldHere.toNat (clampFold c.foldNext).toNat)
    else none
  state := LineState.pack c

/-- Remembers a character that was taken under `style`, unless it counts as a blank. -/
def remember (style : Style) (char : Char) (c : Context) : Context :=
  if style.isSpace then c else { c with lastChar := some char, lastStyle := style }

end Context

namespace Machine

/-- Whether `c` is the last character of its line: a line break ends with it or the text does. -/
def lastOfLine (c : Char) (rest : List Char) : Bool :=
  endsLine c rest || rest.isEmpty

/-- Starts the style that was waiting once nothing is held any more. -/
def release (text : List Char) (m : Machine) : Machine :=
  match m.held, m.after with
  | 0, some style => { m.start style text with after := none }
  | _, _ => m

/-- Takes one character into the run in progress. -/
def take (o : ScanOptions) (c : Char) (rest : List Char) (m : Machine) : Machine :=
  let context := m.context.remember m.style c
  let ends := lastOfLine c rest
  release rest
    { m with
      runLength := m.runLength + 1
      previous := some c
      atLineStart := ends
      context := if ends then context.endLine o else context
      lines := if ends then context.lineData o :: m.lines else m.lines }

/-- Ends the range: a style that was waiting starts behind it. -/
def finish (m : Machine) : Machine :=
  release m.runText { m with held := 0 }

end Machine

end CssHighlight
