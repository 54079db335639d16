/-!
# Lines

A line ends with a line feed, with a carriage return, or with the two together. A line break at
the end of the text opens an empty last line.
-/
namespace CssHighlight

/-- Whether a line break ends with `c`, given the text behind it. -/
def endsLine (c : Char) (rest : List Char) : Bool :=
  c == '\n' || (c == '\r' && rest.head? != some '\n')

/-- The positions behind the line breaks of a text that starts at `position`. -/
def lineStartsFrom (position : Nat) : List Char → List Nat
  | [] => []
  | c :: rest =>
    if endsLine c rest then (position + 1) :: lineStartsFrom (position + 1) rest
    else lineStartsFrom (position + 1) rest

def lineStarts (text : List Char) : List Nat :=
  0 :: lineStartsFrom 0 text

def lineOf (starts : List Nat) (position : Int) : Int :=
  ((starts.countP fun start : Nat => (start : Int) ≤ position : Nat) : Int) - 1

/-- The start of a line, within a text of the given length. Lines behind the last one start at
the end of the text. -/
def lineStart (starts : List Nat) (length : Nat) (line : Int) : Nat :=
  if line < 0 then 0 else starts[line.toNat]?.getD length

end CssHighlight
