import CssHighlight.Scan.InPlace

/-!
# The journal of a scan

A scan in place that also keeps a journal of what it does to the document: each character that it
finishes, and each style, fold level and line state that it writes, in this order.
-/
namespace CssHighlight

inductive Act where
  | finish (position : Nat)
  | setStyle (position : Nat) (style : Style)
  | setFoldLevel (line : Int) (level : Option Int)
  | setLineState (line : Int) (state : Value)
  deriving Inhabited

namespace Act

/-- What an act makes of a document. -/
def apply (act : Act) (d : Document) : Except IndexError Document :=
  match act with
  | .finish _ => .ok d
  | .setStyle position style => d.setStyle position style
  | .setFoldLevel line level => d.setFoldLevel line level
  | .setLineState line state => d.setLineState line state

/-- The position that is finished. -/
def finished? : Act → Option Nat
  | .finish position => some position
  | _ => none

/-- The position that is given a style. -/
def styled? : Act → Option Nat
  | .setStyle position _ => some position
  | _ => none

/-- The line that is given a fold level. -/
def levelled? : Act → Option Int
  | .setFoldLevel line _ => some line
  | _ => none

/-- The line that is given a state. -/
def stated? : Act → Option Int
  | .setLineState line _ => some line
  | _ => none

end Act

/-- What acts make of a document one after the other. -/
def Document.replay (d : Document) (acts : List Act) : Except IndexError Document :=
  acts.foldlM (fun d act => act.apply d) d

/-- A computation that writes to a document and to a journal, up to a fault. -/
abbrev Recording := ExceptT ScanFault (StateM (Document × List Act))

namespace Recording

/-- What a computation gives, and the document and the journal that it leaves behind. -/
def on {α : Type} (x : Recording α) (d : Document) (acts : List Act) :
    Except ScanFault α × Document × List Act :=
  x.run.run (d, acts)

/-- Does what leaves no trace in the journal. -/
def silently {α : Type} (x : Writing α) : Recording α :=
  ExceptT.mk (StateT.mk fun (d, acts) =>
    let (result, d) := x.on d
    (result, (d, acts)))

def note (act : Act) : Recording Unit :=
  modify fun (d, acts) => (d, acts ++ [act])

/-- Does something to the document, and notes it. -/
def perform (act : Act) : Recording Unit := do
  silently (Writing.write act.apply)
  note act

/-- Writes styles one behind the other, from a position on. -/
def writeStyles (position : Nat) : List Style → Recording Unit
  | [] => pure ()
  | style :: styles => do
    perform (.setStyle position style)
    writeStyles (position + 1) styles

/-- Writes the data of a line that ends in the given context. -/
def writeLine (o : ScanOptions) (line : Int) (x : Context) : Recording Unit := do
  if o.fold then
    let level ← silently (Writing.check (fun cause => .refused (.lineData cause))
      (FoldLevel.encode x.foldHere (Context.clampFold x.foldNext)))
    perform (.setFoldLevel line (some level))
  let state ← silently (Writing.check (fun cause => .refused (.lineData cause))
    (LineState.encode x))
  perform (.setLineState line (.int state))

end Recording

namespace Walk

open Recording

/-- The position of the current character. -/
def position (w : Walk) : Nat :=
  w.runStart + w.machine.runLength

def proceedRecorded (m : Machine) (w : Walk) : Recording Walk := do
  let ended := m.painted.take (m.painted.length - w.machine.painted.length)
  writeStyles w.runStart ended.reverse
  return { w with machine := m, runStart := w.runStart + ended.length }

def lookRecorded (o : ScanOptions) (c : Char) (rest : List Char) (w : Walk) : Recording Walk :=
  if w.machine.held = 0 then do
    silently w.readFirst
    w.proceedRecorded (w.machine.look o c rest)
  else return { w with machine := { w.machine with held := w.machine.held - 1 } }

def endLineRecorded (o : ScanOptions) (c : Char) (rest : List Char) (w : Walk) : Recording Walk :=
  if Machine.lastOfLine c rest then do
    writeLine o w.line (w.machine.context.remember w.machine.style c)
    return { w with line := w.line + 1 }
  else return w

def stepRecorded (o : ScanOptions) (c : Char) (rest : List Char) (w : Walk) : Recording Walk := do
  let w ← w.lookRecorded o c rest
  note (.finish w.position)
  let w ← w.endLineRecorded o c rest
  w.proceedRecorded (w.machine.take o c rest)

def runRecorded (o : ScanOptions) : Nat → List Char → Walk → Recording Walk
  | 0, _, w => pure w
  | _ + 1, [], w => pure w
  | count + 1, c :: rest, w => do
    let w ← w.stepRecorded o c rest
    w.runRecorded o count rest

def finishRecorded (w : Walk) : Recording Walk := do
  let w ← w.proceedRecorded w.machine.finish
  writeStyles w.runStart (List.replicate w.machine.runLength w.machine.style)
  return w

end Walk

open Writing Recording in
/-- Scans in place and keeps a journal. -/
def scanRecorded (p : Place) (s : ScanSetup) (start length : Int) (initStyle : Style) :
    Recording ScanResult := do
  let d ← silently get
  silently (check (fun cause => .refused (.range cause)) (d.checkRange start length))
  let o ← silently (check .refused (s.options p))
  let context ← silently (readContext start.toNat initStyle)
  let machine := d.machineAt start.toNat initStyle context
  let w ← Walk.runRecorded o length.toNat (d.text.drop start.toNat)
    ⟨machine, start.toNat, d.lineAt start⟩
  let w ← w.finishRecorded
  return {
    start := start.toNat
    stop := start.toNat + length.toNat
    firstLine := d.lineAt start
    lastLine := d.lineAt (max start (start + length - 1))
    endStyle := w.machine.style }

end CssHighlight
