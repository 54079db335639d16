import CssHighlight.Document.Basic

/-!
# Edits

An edit replaces a piece of the text. Lines before it keep their data, and lines behind it move
with their text; what lies in between is as if it was never scanned.
-/
namespace CssHighlight

/-- The range of an edit does not lie inside the document. -/
structure EditRangeError where
  start : Int
  stop : Int
  deriving DecidableEq, Repr

def EditRangeError.message (e : EditRangeError) : String :=
  s!"Invalid edit range [{e.start}, {e.stop})"

namespace Document

/-- Per-line data after an edit: the first `kept` lines and the lines from `moved` on keep
theirs, and `fresh` stands for the others, so that there are `count` in all. -/
def realign {α : Type} (data : List α) (kept moved count : Nat) (fresh : α) : List α :=
  data.take kept ++ List.replicate (count - kept - (data.length - moved)) fresh ++
    data.drop moved

/-- Replaces the text from `start` up to `stop`. When a carriage return and a line feed come
together, the edited line becomes part of the line before it. -/
def replace (d : Document) (start stop : Int) (inserted : List Char) :
    Except EditRangeError Document :=
  if 0 ≤ start ∧ start ≤ stop ∧ stop ≤ d.length then
    let firstLine := d.lineAt start
    let moved := (d.lineAt stop).toNat + 1
    let low := start.toNat
    let high := stop.toNat
    let text := d.text.take low ++ inserted ++ d.text.drop high
    let starts := lineStarts text
    -- The line of the edit may be another one afterwards; the earlier one keeps its data.
    let kept := (min firstLine (lineOf starts start)).toNat + 1
    .ok
      { text := text
        styles :=
          d.styles.take low ++ inserted.map (fun _ => Style.default) ++ d.styles.drop high
        foldLevels := realign d.foldLevels kept moved starts.length none
        lineStates := realign d.lineStates kept moved starts.length (.int 0) }
  else .error ⟨start, stop⟩

/-- An edit as the holder of the document sees it: its fields are written one after the other, the
data of the lines last, by the line starts of the text that is already there. -/
def replaceInPlace (start stop : Int) (inserted : List Char) :
    ExceptT EditRangeError (StateM Document) Unit := do
  let d ← get
  if 0 ≤ start ∧ start ≤ stop ∧ stop ≤ d.length then
    let firstLine := d.lineAt start
    let moved := (d.lineAt stop).toNat + 1
    let low := start.toNat
    let high := stop.toNat
    modify fun d => { d with text := d.text.take low ++ inserted ++ d.text.drop high }
    modify fun d =>
      { d with
        styles :=
          d.styles.take low ++ inserted.map (fun _ => Style.default) ++ d.styles.drop high }
    let kept := (min firstLine ((← get).lineAt start)).toNat + 1
    modify fun d => { d with foldLevels := realign d.foldLevels kept moved d.lineCount none }
    modify fun d => { d with lineStates := realign d.lineStates kept moved d.lineCount (.int 0) }
  else throw ⟨start, stop⟩

end Document

end CssHighlight
