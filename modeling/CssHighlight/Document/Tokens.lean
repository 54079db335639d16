import CssHighlight.Document.Basic

/-!
# Tokens

A token is a maximal run of characters that share a style.
-/
namespace CssHighlight

structure Token where
  start : Int
  stop : Int
  style : Style
  text : List Char
  deriving DecidableEq, Repr

/-- A range of positions that share a style. -/
structure Run where
  start : Int
  stop : Int
  style : Style
  deriving DecidableEq, Repr

/-- Puts the style at a position in front of the runs that start behind it. -/
def joinRun (entry : Style × Int) : List Run → List Run
  | [] => [⟨entry.2, entry.2 + 1, entry.1⟩]
  | run :: rest =>
    if run.style = entry.1 then { run with start := entry.2 } :: rest
    else ⟨entry.2, entry.2 + 1, entry.1⟩ :: run :: rest

/-- The runs of a list of styles whose first one stands at `start`. -/
def runsOf (start : Int) (styles : List Style) : List Run :=
  (styles.zipIdx.map fun entry => (entry.1, start + entry.2)).foldr joinRun []

namespace Document

/-- The runs between two positions. A negative position counts from the end of the text, and the
window may reach from the end round to the front. -/
def runs (d : Document) (start stop : Int) : Except IndexError (List Run) :=
  let n := d.styles.length
  if stop ≤ start then .ok []
  else if start < -(n : Int) ∨ (n : Int) < stop then .error .read
  else
    .ok (runsOf start
      (((d.styles ++ d.styles).drop (start + n).toNat).take (stop - start).toNat))

def tokens (d : Document) (start stop : Int) : Except IndexError (List Token) :=
  let chars := d.text.toArray
  (d.runs start stop).map fun runs => runs.map fun run =>
    { start := run.start
      stop := run.stop
      style := run.style
      text :=
        (chars.extract (sliceBound chars.size run.start) (sliceBound chars.size run.stop)).toList }

def allTokens (d : Document) : List Token :=
  match d.tokens 0 d.length with
  | .ok tokens => tokens
  | .error _ => []

end Document

end CssHighlight
