/-!
# Positions from either end

A position in a list of `n` items counts from the front; a negative one counts from the end, so
that `-1` is the last item. A position outside is an error for a single item, and is moved to the
nearest end for a slice.
-/
namespace CssHighlight

/-- A position outside a list or a text was used. -/
inductive IndexError where
  | read
  | write
  /-- A character outside a text was asked for. -/
  | readText
  deriving DecidableEq, Repr, Inhabited

def IndexError.message : IndexError → String
  | .read => "list index out of range"
  | .write => "list assignment index out of range"
  | .readText => "string index out of range"

/-- The place of an item in a list of `n` items. -/
def index? (n : Nat) (position : Int) : Option Nat :=
  if 0 ≤ position then
    if position < n then some position.toNat else none
  else if -(n : Int) ≤ position then some (position + n).toNat
  else none

def itemAt {α : Type} (items : List α) (position : Int) : Except IndexError α :=
  match (index? items.length position).bind (items[·]?) with
  | some item => .ok item
  | none => .error .read

def putItem {α : Type} (items : List α) (position : Int) (item : α) :
    Except IndexError (List α) :=
  match index? items.length position with
  | some i => .ok (items.set i item)
  | none => .error .write

/-- The place of one end of a slice of `n` items. -/
def sliceBound (n : Nat) (position : Int) : Nat :=
  if position < 0 then (position + n).toNat else min position.toNat n

def slice {α : Type} (items : List α) (start stop : Int) : List α :=
  let low := sliceBound items.length start
  (items.drop low).take (sliceBound items.length stop - low)

end CssHighlight
