import CssHighlight.Toml.Lexeme

/-!
# Growing a table

A TOML text names tables in several places, and rules say which of them may be opened again: one
that was declared by its own header may not, and one that was written inline may not change at
all. The marks that these rules need are kept beside the table that grows.
-/
namespace CssHighlight.Toml

abbrev Key := List String

abbrev Entries := List (String × Value)

inductive Mark where
  /-- The table was declared and cannot be declared again. -/
  | declared
  /-- The value was written inline, and nothing below it can change. -/
  | frozen
  deriving DecidableEq, Repr

abbrev Marks := List (Key × Mark)

namespace Marks

/-- Whether a mark holds at a key. Frozen is also what lies below a frozen key. -/
def holds (marks : Marks) (mark : Mark) (key : Key) : Bool :=
  marks.any fun entry =>
    entry.2 == mark && (entry.1 == key || (mark == .frozen && entry.1.isPrefixOf key))

/-- Forgets the marks at a key and below it. -/
def clear (marks : Marks) (key : Key) : Marks :=
  marks.filter fun entry => !key.isPrefixOf entry.1

end Marks

namespace Entries

def get? (entries : Entries) (key : String) : Option Value :=
  entries.lookup key

/-- Puts a value in the place of the one under a key, or behind all entries. -/
def put (entries : Entries) (key : String) (value : Value) : Entries :=
  if entries.any (·.1 == key) then
    entries.map fun entry => if entry.1 == key then (key, value) else entry
  else entries ++ [(key, value)]

/-- Changes the table under a key, which is made when it is missing. The key may lead through the
last table of an array if `throughArrays` is set. -/
def change (throughArrays : Bool) (f : Entries → Except TomlError Entries) :
    Key → Entries → Except TomlError Entries
  | [], entries => f entries
  | part :: rest, entries =>
    match get? entries part with
    | none => (change throughArrays f rest []).map fun inner => put entries part (.table inner)
    | some (.table inner) =>
      (change throughArrays f rest inner).map fun inner => put entries part (.table inner)
    | some (.list items) =>
      match throughArrays, items.getLast? with
      | true, some (.table inner) =>
        (change throughArrays f rest inner).map fun inner =>
          put entries part (.list (items.dropLast ++ [.table inner]))
      | _, _ => malformed
    | some _ => malformed

def addNew (key : String) (value : Value) (entries : Entries) : Except TomlError Entries :=
  if (get? entries key).isSome then malformed else .ok (put entries key value)

/-- Adds an empty table to the array under a key, which is made when it is missing. -/
def addTable (key : String) (entries : Entries) : Except TomlError Entries :=
  match get? entries key with
  | none => .ok (put entries key (.list [.table []]))
  | some (.list items) => .ok (put entries key (.list (items ++ [.table []])))
  | some _ => malformed

end Entries

/-- Whether a value was written with brackets or braces, and so cannot be extended later. -/
def isInline : Value → Bool
  | .list _ => true
  | .table _ => true
  | _ => false

/-- A table that grows line by line. -/
structure Builder where
  entries : Entries
  marks : Marks
  /-- Tables that dotted keys opened since the last header; from the next one on they count as
  declared. -/
  pending : List Key
  header : Key
  deriving Inhabited

namespace Builder

def empty : Builder := ⟨[], [], [], []⟩

/-- Declares the tables that dotted keys have opened. -/
def settle (b : Builder) : Builder :=
  { b with marks := b.pending.map (·, .declared) ++ b.marks, pending := [] }

def openTable (b : Builder) (key : Key) : Except TomlError Builder := do
  if b.marks.holds .declared key || b.marks.holds .frozen key then malformed
  let entries ← b.entries.change true .ok key
  return { b with entries := entries, marks := (key, .declared) :: b.marks, header := key }

/-- A header `[[key]]`. What the array's last table holds is free to be declared again. -/
def openArray (b : Builder) (key : Key) : Except TomlError Builder := do
  if b.marks.holds .frozen key then malformed
  let entries ← b.entries.change true (Entries.addTable (key.getLast?.getD "")) key.dropLast
  return { b with
    entries := entries
    marks := (key, .declared) :: b.marks.clear key
    header := key }

/-- The tables that a dotted key opens below the last header. -/
def openedBy (b : Builder) (key : Key) : List Key :=
  (List.range key.length).filterMap fun n =>
    if n = 0 then none else some (b.header ++ key.take n)

def assign (b : Builder) (key : Key) (value : Value) : Except TomlError Builder := do
  let opened := b.openedBy key
  if opened.any (b.marks.holds .declared) then malformed
  let parent := b.header ++ key.dropLast
  if b.marks.holds .frozen parent then malformed
  let entries ← b.entries.change true (Entries.addNew (key.getLast?.getD "") value) parent
  return { b with
    entries := entries
    marks := if isInline value then (b.header ++ key, .frozen) :: b.marks else b.marks
    pending := opened ++ b.pending }

end Builder

end CssHighlight.Toml
