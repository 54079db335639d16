import CssHighlight.Context
import CssHighlight.Value

/-!
# Line states and fold levels

Two numbers are kept for every line. The line state holds the part of the context that survives a
line break:

    bit  0      inside a value
    bit  1      inside brackets
    bits 2-7    depth inside math functions
    bits 8-15   depth inside parentheses
    bits 16-23  depth inside selector lists

The fold level holds the level carried into the line in its low half, the level carried out of it
in its high half, and a mark when the line opens a deeper region.
-/
namespace CssHighlight

inductive LineField where
  | inValue
  | inBrackets
  | mathDepth
  | parenDepth
  | selectorDepth
  deriving DecidableEq, Repr

namespace LineField

def all : List LineField := [.inValue, .inBrackets, .mathDepth, .parenDepth, .selectorDepth]

def label : LineField → String
  | .inValue => "property_value"
  | .inBrackets => "attribute_selector"
  | .mathDepth => "calc_level"
  | .parenDepth => "paren_count"
  | .selectorDepth => "selector_level"

/-- The greatest value that fits. -/
def limit : LineField → Nat
  | .inValue => 1
  | .inBrackets => 1
  | .mathDepth => 63
  | .parenDepth => 255
  | .selectorDepth => 255

/-- The value of the field's lowest bit. -/
def weight : LineField → Nat
  | .inValue => 1
  | .inBrackets => 2
  | .mathDepth => 4
  | .parenDepth => 0x100
  | .selectorDepth => 0x10000

end LineField

inductive LineDataError where
  | negativeField (field : LineField) (value : Int)
  | notLineState (value : Value)
  | negativeFoldLevel
  deriving Inhabited

def LineDataError.message : LineDataError → String
  | .negativeField field value =>
    s!"`{field.label}` must not be negative, got {value}"
  | .notLineState value => "Invalid line state: " ++ value.toText
  | .negativeFoldLevel => "fold levels must not be negative"

/-- Flags and counters as numbers; a flag that is set counts as one. -/
class AsNumber (α : Type) where
  number : α → Int

instance : AsNumber Bool := ⟨fun b => if b then 1 else 0⟩
instance : AsNumber Int := ⟨id⟩

/-- A flag or a counter, whichever was given. -/
inductive Scalar where
  | flag (b : Bool)
  | number (n : Int)
  deriving DecidableEq, Repr, Inhabited

instance : AsNumber Scalar where
  number
    | .flag b => AsNumber.number b
    | .number n => n

namespace LineState

variable {Flag Count : Type} [AsNumber Flag] [AsNumber Count]

/-- The number that a context holds for a field. -/
def fieldValue (c : ContextOf Flag Count) : LineField → Int
  | .inValue => AsNumber.number c.inValue
  | .inBrackets => AsNumber.number c.inBrackets
  | .mathDepth => AsNumber.number c.mathDepth
  | .parenDepth => AsNumber.number c.parenDepth
  | .selectorDepth => AsNumber.number c.selectorDepth

/-- The line state of a context. What is too large for its field is held at the field's limit. -/
def pack (c : ContextOf Flag Count) : Nat :=
  (LineField.all.map fun f => f.weight * min (fieldValue c f).toNat f.limit).foldr (· + ·) 0

def encode (c : ContextOf Flag Count) : Except LineDataError Nat :=
  match LineField.all.find? fun f => fieldValue c f < 0 with
  | some f => .error (.negativeField f (fieldValue c f))
  | none => .ok (pack c)

/-- The value of a field in a line state; higher bits are ignored. -/
def field (state : Nat) (f : LineField) : Nat :=
  state / f.weight % (f.limit + 1)

/-- Takes the restartable part of a context from a line state. -/
def restore (state : Nat) (c : Context) : Context :=
  { c with
    inValue := field state .inValue != 0
    inBrackets := field state .inBrackets != 0
    mathDepth := field state .mathDepth
    parenDepth := field state .parenDepth
    selectorDepth := field state .selectorDepth }

/-- Takes the restartable part of a context from a stored value, which must be a whole number
that is not negative. -/
def decode (value : Value) (c : Context) : Except LineDataError Context :=
  match value with
  | .int (.ofNat state) => .ok (restore state c)
  | _ => .error (.notLineState value)

end LineState

namespace FoldLevel

/-- The greatest level that fits into a half. -/
def limit : Nat := 0xFFF

/-- The weight of the high half. -/
def highWeight : Nat := 0x10000

/-- The mark of a line that opens a deeper region. -/
def headerFlag : Nat := 0x2000

def pack (here next : Nat) : Nat :=
  let here := min here limit
  let next := min next limit
  here + next * highWeight + (if here < next then headerFlag else 0)

def encode (here next : Int) : Except LineDataError Nat :=
  if here < 0 ∨ next < 0 then .error .negativeFoldLevel
  else .ok (pack here.toNat next.toNat)

/-- The level carried into the line. -/
def here (level : Int) : Int :=
  level % 0x1000

/-- The level carried out of the line. -/
def next (level : Int) : Int :=
  level / 0x10000 % 0x1000

def isHeader (level : Int) : Bool :=
  level / 0x2000 % 2 = 1

/-- The two levels of a line, and whether it opens a deeper region. -/
def unpack (level : Int) : Int × Int × Bool :=
  (here level, next level, isHeader level)

/-- The level that a line inherits from the stored level of the line above it. -/
def carried : Option Int → Int
  | none => Context.baseFold
  | some level => next level

end FoldLevel

end CssHighlight
