import CssHighlight.Document.Lines
import CssHighlight.Position
import CssHighlight.Style
import CssHighlight.Value

/-!
# Documents

A document is a text with a style for every character, and a fold level and a line state for
every line. A line that was never scanned has no fold level.
-/
namespace CssHighlight

structure Document where
  text : List Char
  styles : List Style
  foldLevels : List (Option Int)
  /-- Line states are kept as they were stored, and checked when a scan starts from them. -/
  lineStates : List Value
  deriving Inhabited

namespace Document

/-- A document that was not scanned yet. -/
def ofChars (text : List Char) : Document where
  text := text
  styles := text.map fun _ => .default
  foldLevels := (lineStarts text).map fun _ => none
  lineStates := (lineStarts text).map fun _ => .int 0

def ofText (text : String) : Document :=
  ofChars text.toList

def length (d : Document) : Nat :=
  d.text.length

def lineCount (d : Document) : Nat :=
  (lineStarts d.text).length

def lineAt (d : Document) (position : Int) : Int :=
  lineOf (lineStarts d.text) position

def startOf (d : Document) (line : Int) : Nat :=
  lineStart (lineStarts d.text) d.length line

/-- The character at a position; there is none outside the text. -/
def charAt (d : Document) (position : Int) : Option Char :=
  if 0 ≤ position then d.text[position.toNat]? else none

def styleAt (d : Document) (position : Int) : Except IndexError Style :=
  itemAt d.styles position

def foldLevel (d : Document) (line : Int) : Except IndexError (Option Int) :=
  itemAt d.foldLevels line

def lineState (d : Document) (line : Int) : Except IndexError Value :=
  itemAt d.lineStates line

def setFoldLevel (d : Document) (line : Int) (level : Option Int) : Except IndexError Document :=
  (putItem d.foldLevels line level).map fun levels => { d with foldLevels := levels }

def setLineState (d : Document) (line : Int) (state : Value) : Except IndexError Document :=
  (putItem d.lineStates line state).map fun states => { d with lineStates := states }

/-- Whether a place in a list of `n` items is reached by a position from `start` up to, and
without, `stop`. -/
def reached (n : Nat) (start stop : Int) (place : Nat) : Bool :=
  (start ≤ place && place < stop) || (start ≤ (place : Int) - n && (place : Int) - n < stop)

/-- Gives a style to the positions from `start` up to, and without, `stop`, in this order. At a
position outside the text the work ends with an error; what was styled before stays so. -/
def paint (d : Document) (start stop : Int) (style : Style) : Document × Option IndexError :=
  let n := d.styles.length
  if stop ≤ start then (d, none)
  else if start < -(n : Int) then (d, some .write)
  else
    ({ d with
        styles := d.styles.mapIdx fun place old =>
          if reached n start stop place then style else old },
      if (n : Int) < stop then some .write else none)

/-- The last significant character before `start` and its style, walking back over blanks and
comments. -/
def lookBack (d : Document) (start : Int) : Except IndexError (Option Char × Style) :=
  if (d.length : Int) < start then .error .read
  else
    let before := (d.text.zip d.styles).take start.toNat
    match before.reverse.find? fun entry => !entry.2.isSpace with
    | some (c, style) => .ok (some c, style)
    | none => .ok (none, .default)

end Document

end CssHighlight
