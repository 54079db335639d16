import CssHighlight.Document.Edit
import CssHighlight.Scan.Step

/-!
# Scanning a range of a document

A scan may start at any line. The nesting comes from the line state of the line above, the last
significant character from the text before, and the style from the caller, so that the range is
styled as in a scan of the whole document.
-/
namespace CssHighlight

structure ScanResult where
  start : Nat
  stop : Nat
  firstLine : Int
  lastLine : Int
  /-- The style that is current behind the range. -/
  endStyle : Style
  deriving DecidableEq, Repr

structure RangeError where
  start : Int
  length : Int
  documentLength : Nat
  deriving DecidableEq, Repr

def RangeError.message (e : RangeError) : String :=
  s!"Scan range [{e.start}, {e.start + e.length}) is outside the document of length " ++
    s!"{e.documentLength}"

namespace Document

def lastSignificant (d : Document) (start : Nat) : Option Char × Style :=
  match d.lookBack start with
  | .ok found => found
  | .error _ => (none, .default)

/-- The context in which a scan from `start` begins, behind a character of style `initStyle`. -/
def contextAt (d : Document) (start : Nat) (initStyle : Style) : Except LineDataError Context := do
  let line := (d.lineAt start).toNat
  let mut c := Context.initial
  -- The first line has no line above to take data from.
  if 0 < line then
    c := { c with foldHere := FoldLevel.carried (d.foldLevels[line - 1]?.getD none) }
    c ← LineState.decode (d.lineStates[line - 1]?.getD (.int 0)) c
  if 0 < start ∧ initStyle.isSpace = true then
    let (lastChar, lastStyle) := d.lastSignificant start
    c := { c with lastChar := lastChar, lastStyle := lastStyle }
  return { c with foldNext := c.foldHere }

def machineAt (d : Document) (start : Nat) (initStyle : Style) (c : Context) : Machine where
  style := initStyle
  runText := d.text.drop start
  runLength := 0
  held := 0
  after := none
  previous := d.charAt (start - 1)
  atLineStart := d.startOf (d.lineAt start) = start
  context := c
  painted := []
  lines := []

/-- Puts items in the place of those from `start` on. -/
def overlay {α : Type} (start : Nat) (items old : List α) : List α :=
  old.take start ++ items ++ old.drop (start + items.length)

/-- Writes the data of finished lines, the first of which is line `first`. -/
def putLines (d : Document) (first : Nat) (lines : List LineData) : Document :=
  { d with
    foldLevels :=
      if lines.any (·.fold.isSome) then
        overlay first (lines.map fun line => line.fold.map Int.ofNat) d.foldLevels
      else d.foldLevels
    lineStates := overlay first (lines.map fun line => Value.int line.state) d.lineStates }

/-- Scans `length` characters from `start` on, in a given context. -/
def scanFrom (d : Document) (start length : Nat) (initStyle : Style) (o : ScanOptions)
    (c : Context) : Document × ScanResult :=
  let m := ((d.machineAt start initStyle c).run o length (d.text.drop start)).finish
  let styled := { d with styles := overlay start m.styles d.styles }
  (styled.putLines (d.lineAt start).toNat m.lines.reverse,
    { start := start
      stop := start + length
      firstLine := d.lineAt start
      lastLine := d.lineAt (max (start : Int) (start + length - 1))
      endStyle := m.style })

def checkRange (d : Document) (start length : Int) : Except RangeError Unit :=
  if start < 0 ∨ length < 0 ∨ (d.length : Int) < start + length then
    .error ⟨start, length, d.length⟩
  else .ok ()

def scanRange (d : Document) (start length : Nat) (initStyle : Style) (o : ScanOptions) :
    Except LineDataError (Document × ScanResult) :=
  (d.contextAt start initStyle).map fun c => d.scanFrom start length initStyle o c

/-- The start of the line that holds a position, and the style of the character before it. -/
def restartPoint (d : Document) (position : Nat) : Nat × Style :=
  let start := d.startOf (d.lineAt position)
  (start, if start = 0 then .default else d.styles[start - 1]?.getD .default)

end Document

end CssHighlight
