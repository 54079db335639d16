import CssHighlight.CharClass
import CssHighlight.Document.Basic

/-!
# Cursors

A cursor walks over one range of a document and styles it run by run. It keeps the line it is on
and the start of the next one, so that a step forward does not search for its line, and it keeps the
characters around its position as they were when it came there.
-/
namespace CssHighlight

structure Cursor where
  document : Document
  position : Int
  stop : Int
  style : Style
  /-- Where the run in progress started. -/
  runStart : Int
  line : Int
  /-- Where the next line starts. -/
  nextLineStart : Int
  /-- The position is the first one of its line. -/
  atLineStart : Bool
  /-- The position is the last one of its line. -/
  atLineEnd : Bool := false
  /-- The character in front of the position. -/
  previous : Option Char := none
  /-- The character at the position. -/
  current : Option Char := none
  /-- The character behind the position. -/
  next : Option Char := none
  deriving Inhabited

namespace Cursor

/-- Looks around at the position. -/
def load (c : Cursor) : Cursor :=
  { c with
    previous := c.document.charAt (c.position - 1)
    current := c.document.charAt c.position
    next := c.document.charAt (c.position + 1)
    atLineEnd := c.nextLineStart - 1 ≤ c.position }

def ofRange (d : Document) (start length : Int) (style : Style) : Cursor :=
  load
    { document := d
      position := start
      stop := start + length
      style := style
      runStart := start
      line := d.lineAt start
      nextLineStart := d.startOf (d.lineAt start + 1)
      atLineStart := (d.startOf (d.lineAt start) : Int) = start }

def hasMore (c : Cursor) : Bool :=
  c.position < c.stop

/-- The character at a distance from the position. -/
def charAt (c : Cursor) (offset : Int) : Option Char :=
  c.document.charAt (c.position + offset)

def forward (c : Cursor) : Cursor :=
  if c.hasMore then
    let c := { c with atLineStart := c.atLineEnd }
    let c :=
      if c.atLineStart then
        { c with
          line := c.line + 1
          nextLineStart := c.document.startOf (c.line + 2) }
      else c
    load { c with position := c.position + 1 }
  else c

def looksAt (c : Cursor) (word : List Char) : Bool :=
  decide (c.position ≤ c.document.length) &&
    word.isPrefixOf (c.document.text.drop (sliceBound c.document.length c.position))

/-- Styles the run in progress and starts another one at the position. -/
def startRun (c : Cursor) (style : Style) : Cursor × Option IndexError :=
  match c.document.paint c.runStart (min c.position c.stop) c.style with
  | (d, none) => ({ c with document := d, runStart := c.position, style := style }, none)
  | (d, some e) => ({ c with document := d }, some e)

def restyleRun (c : Cursor) (style : Style) : Cursor :=
  { c with style := style }

def finish (c : Cursor) : Cursor × Option IndexError :=
  match c.document.paint c.runStart c.stop c.style with
  | (d, none) => ({ c with document := d, runStart := c.stop }, none)
  | (d, some e) => ({ c with document := d }, some e)

/-- The text of the run in progress in lower case, when it is shorter than `capacity`. -/
def runName (c : Cursor) (capacity : Int) : Option String :=
  if capacity ≤ c.position - c.runStart then none
  else
    some (String.ofList (Text.lowerChars (slice c.document.text c.runStart c.position)))

/-- The first character at or behind the position that separates no tokens, up to the end of the
document. -/
def nextSolid (c : Cursor) (skipCurrent : Bool) : Except IndexError (Option Char) :=
  let origin := if skipCurrent then c.position + 1 else c.position
  let text := c.document.text
  if origin < -(text.length : Int) then .error .readText
  else
    let tail := if origin < 0 then text.drop (origin + text.length).toNat ++ text
      else text.drop origin.toNat
    .ok (tail.find? fun char => !isSeparator char)

end Cursor

end CssHighlight
