import CssHighlight.Highlight

/-!
# Scanning in place

A scan as the holder of the document sees it: styles are written when their run ends, and the data
of a line when the line ends, into the document that is being scanned. Every access to the
document is checked. Where one is refused the scan halts, and what was written before stays
written.
-/
namespace CssHighlight

/-- Why a scan halts. -/
inductive ScanFault where
  | refused (cause : ScanError)
  | index (cause : IndexError)
  deriving Inhabited

def Document.setStyle (d : Document) (position : Int) (style : Style) :
    Except IndexError Document :=
  (putItem d.styles position style).map fun styles => { d with styles := styles }

/-- A computation that reads a document and writes to it, up to a fault. -/
abbrev Writing := ExceptT ScanFault (StateM Document)

namespace Writing

/-- What a computation gives, and the document that it leaves behind. -/
def on {α : Type} (x : Writing α) (d : Document) : Except ScanFault α × Document :=
  x.run.run d

def check {ε α : Type} (fault : ε → ScanFault) : Except ε α → Writing α
  | .ok a => pure a
  | .error cause => throw (fault cause)

def write (f : Document → Except IndexError Document) : Writing Unit := do
  set (← check .index (f (← get)))

def readChar (position : Nat) : Writing Char := do
  match (← get).text[position]? with
  | some c => return c
  | none => throw (.index .readText)

/-- Writes styles one behind the other, from a position on. -/
def writeStyles (position : Nat) : List Style → Writing Unit
  | [] => pure ()
  | style :: styles => do
    write fun d => d.setStyle position style
    writeStyles (position + 1) styles

/-- Writes the data of a line that ends in the given context. -/
def writeLine (o : ScanOptions) (line : Int) (x : Context) : Writing Unit := do
  if o.fold then
    let level ← check (fun cause => .refused (.lineData cause))
      (FoldLevel.encode x.foldHere (Context.clampFold x.foldNext))
    write fun d => d.setFoldLevel line (some level)
  let state ← check (fun cause => .refused (.lineData cause)) (LineState.encode x)
  write fun d => d.setLineState line (.int state)

/-- Reads the part of the context that the line above a position holds. -/
def readLine (start : Nat) : Writing Context := do
  let d ← get
  let line := d.lineAt start
  if 0 < line then
    let level ← check .index (d.foldLevel (line - 1))
    let state ← check .index (d.lineState (line - 1))
    check (fun cause => .refused (.lineData cause))
      (LineState.decode state { Context.initial with foldHere := FoldLevel.carried level })
  else return .initial

/-- Reads the context in which a scan begins. -/
def readContext (start : Nat) (initStyle : Style) : Writing Context := do
  let x ← readLine start
  if 0 < start ∧ initStyle.isSpace = true then
    let d ← get
    let (lastChar, lastStyle) ← check .index (d.lookBack start)
    return { x with lastChar := lastChar, lastStyle := lastStyle, foldNext := x.foldHere }
  else return { x with foldNext := x.foldHere }

end Writing

/-- A scan under way. -/
structure Walk where
  machine : Machine
  /-- Where the run in progress starts. -/
  runStart : Nat
  line : Int

namespace Walk

open Writing

/-- Goes on with another machine, and writes the styles of the runs that it has ended. -/
def proceed (m : Machine) (w : Walk) : Writing Walk := do
  let ended := m.painted.take (m.painted.length - w.machine.painted.length)
  writeStyles w.runStart ended.reverse
  return { w with machine := m, runStart := w.runStart + ended.length }

/-- A number reads its first character again, for a colour goes on with other characters. -/
def readFirst (w : Walk) : Writing Unit :=
  if w.machine.style = .number then do
    let _ ← readChar w.runStart
  else return

/-- Decides about the current character, unless it is held. -/
def look (o : ScanOptions) (c : Char) (rest : List Char) (w : Walk) : Writing Walk :=
  if w.machine.held = 0 then do
    w.readFirst
    w.proceed (w.machine.look o c rest)
  else return { w with machine := { w.machine with held := w.machine.held - 1 } }

/-- Writes the line's data behind its last character. -/
def endLine (o : ScanOptions) (c : Char) (rest : List Char) (w : Walk) : Writing Walk :=
  if Machine.lastOfLine c rest then do
    writeLine o w.line (w.machine.context.remember w.machine.style c)
    return { w with line := w.line + 1 }
  else return w

def step (o : ScanOptions) (c : Char) (rest : List Char) (w : Walk) : Writing Walk := do
  let w ← w.look o c rest
  let w ← w.endLine o c rest
  w.proceed (w.machine.take o c rest)

def run (o : ScanOptions) : Nat → List Char → Walk → Writing Walk
  | 0, _, w => pure w
  | _ + 1, [], w => pure w
  | count + 1, c :: rest, w => do
    let w ← w.step o c rest
    w.run o count rest

/-- Writes the styles that are left at the end of the range. -/
def finish (w : Walk) : Writing Walk := do
  let w ← w.proceed w.machine.finish
  writeStyles w.runStart (List.replicate w.machine.runLength w.machine.style)
  return w

end Walk

open Writing in
/-- Styles `length` characters from `start` on, behind a character of style `initStyle`, in the
document itself. -/
def scanInPlace (p : Place) (s : ScanSetup) (start length : Int) (initStyle : Style) :
    Writing ScanResult := do
  let d ← get
  check (fun cause => .refused (.range cause)) (d.checkRange start length)
  let o ← check .refused (s.options p)
  let context ← readContext start.toNat initStyle
  let machine := d.machineAt start.toNat initStyle context
  let w ← Walk.run o length.toNat (d.text.drop start.toNat) ⟨machine, start.toNat, d.lineAt start⟩
  let w ← w.finish
  return {
    start := start.toNat
    stop := start.toNat + length.toNat
    firstLine := d.lineAt start
    lastLine := d.lineAt (max start (start + length - 1))
    endStyle := w.machine.style }

end CssHighlight
