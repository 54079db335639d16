import CssHighlight.Style

/-!
# Scan context

What the scanner remembers between characters. The nesting flags and counters survive a line
break; the rest is rebuilt from text that is already styled.
-/
namespace CssHighlight

/-- Where an escape sequence or unicode range stands. -/
structure Escape where
  /-- The style that goes on behind the sequence. -/
  outer : Style := .default
  digitsLeft : Int := 0
  deriving DecidableEq, Repr, Inhabited

/-- A context with given types of flags and counters. The scanner uses `Context`; a context that
comes from outside may hold a number as a flag or a flag as a number. -/
structure ContextOf (Flag Count : Type) where
  /-- Inside the value part of a declaration. -/
  inValue : Flag
  inBrackets : Flag
  /-- Nesting depth inside the arguments of math functions. -/
  mathDepth : Count
  parenDepth : Count
  /-- Nesting depth inside pseudo-classes that take selectors. -/
  selectorDepth : Count
  /-- The last significant character when the current run started. -/
  before : Option Char
  lastChar : Option Char
  lastStyle : Style
  /-- The style that goes on when the open interpolation closes. -/
  interpolation : Option Style
  /-- A math function's name was just seen and its parenthesis is still to come. -/
  mathPending : Flag
  escape : Escape
  /-- The fold level carried into the current line. -/
  foldHere : Count
  /-- The fold level that the next line will have. -/
  foldNext : Count
  deriving DecidableEq, Repr

abbrev Context := ContextOf Bool Int

namespace ContextOf

/-- Forgets the declaration context, as the start or end of a block does. -/
def resetBlock {Flag Count : Type} (off : Flag) (none : Count) (c : ContextOf Flag Count) :
    ContextOf Flag Count :=
  { c with
    inValue := off
    inBrackets := off
    mathDepth := none
    parenDepth := none
    selectorDepth := none }

end ContextOf

namespace Context

/-- The fold level of text outside all blocks. -/
def baseFold : Int := 0x400

def initial : Context where
  inValue := false
  inBrackets := false
  mathDepth := 0
  parenDepth := 0
  selectorDepth := 0
  before := none
  lastChar := none
  lastStyle := .default
  interpolation := none
  mathPending := false
  escape := {}
  foldHere := baseFold
  foldNext := baseFold

instance : Inhabited Context := ⟨initial⟩

end Context

end CssHighlight
