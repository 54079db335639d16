import CssHighlight.Toml.Table

/-!
# TOML texts

Settings and keyword files are written in TOML. A text is read line by line into a table. The
values in it are read by functions that call one another, so that a text with values nested too
deep for the calls that are left is not read.
-/
namespace CssHighlight.Toml

def isBareKeyChar (c : Char) : Bool :=
  ('a' ≤ c && c ≤ 'z') || ('A' ≤ c && c ≤ 'Z') || isDigit c || c == '-' || c == '_'

/-- One part of a key: bare, or a string of one line. -/
def keyPart (s : List Char) : Except TomlError (String × List Char) :=
  match s with
  | '"' :: rest => (basicString false [] rest).map fun read => (String.ofList read.1, read.2)
  | '\'' :: rest => (literalString rest).map fun read => (String.ofList read.1, read.2)
  | s =>
    let part := s.takeWhile isBareKeyChar
    if part.isEmpty then malformed else .ok (String.ofList part, s.dropWhile isBareKeyChar)

/-- The parts of a key, of which there are at most `fuel`, and the text behind the blanks after
it. -/
def keyParts : Nat → List Char → Except TomlError (Key × List Char)
  | 0, _ => malformed
  | fuel + 1, s => do
    let (part, rest) ← keyPart s
    match skipSpace rest with
    | '.' :: rest =>
      let (parts, rest) ← keyParts fuel (skipSpace rest)
      return (part :: parts, rest)
    | rest => return ([part], rest)

def key (s : List Char) : Except TomlError (Key × List Char) :=
  keyParts s.length s

def skipComment (s : List Char) : Except TomlError (List Char) :=
  match s with
  | '#' :: rest =>
    if (rest.takeWhile (· ≠ '\n')).any isIllegal then malformed
    else .ok (rest.dropWhile (· ≠ '\n'))
  | s => .ok s

/-- Skips blanks, line breaks and comments inside an array. -/
def skipArrayBlank : Nat → List Char → Except TomlError (List Char)
  | 0, s => .ok s
  | fuel + 1, s =>
    match s.dropWhile isSpaceOrNewline with
    | '#' :: rest => do skipArrayBlank fuel (← skipComment ('#' :: rest))
    | s => .ok s

def skipBlank (s : List Char) : Except TomlError (List Char) :=
  skipArrayBlank s.length s

/-- A value that holds no others, or nothing if none starts here. -/
def simpleValue? (s : List Char) : Option (Except TomlError (Value × List Char)) :=
  match string? s with
  | some read => some (read.map fun read => (.str (String.ofList read.1), read.2))
  | none =>
    match s with
    | 't' :: 'r' :: 'u' :: 'e' :: rest => some (.ok (.bool true, rest))
    | 'f' :: 'a' :: 'l' :: 's' :: 'e' :: rest => some (.ok (.bool false, rest))
    | s =>
      match date? s with
      | some read => some read
      | none =>
        match time? s with
        | some (time, rest) => some (.ok (.date time, rest))
        | none =>
          match number? s with
          | some read => some read
          | none => (specialFloat? s).map .ok

/-- The calls that stay open while the items of an array are read, and while those of an inline
table are. -/
def arrayCalls : Nat := 2

def tableCalls : Nat := 3

mutual

/-- A value. Each nested value and each item takes from the fuel. The calls that are left are taken
by the arrays and inline tables around a value. -/
def value : Nat → Nat → List Char → Except TomlError (Value × List Char)
  | 0, _, _ => malformed
  | fuel + 1, calls, s =>
    match s with
    | '[' :: rest =>
      if calls < arrayCalls then .error .tooDeep
      else do arrayItems fuel (calls - arrayCalls) [] (← skipBlank rest)
    | '\x7b' :: rest =>
      if calls < tableCalls then .error .tooDeep
      else
        match skipSpace rest with
        | '\x7d' :: rest => .ok (.table [], rest)
        | rest => inlineEntries fuel (calls - tableCalls) [] [] rest
    | s => (simpleValue? s).getD malformed

/-- The items of an array behind those in `done`, the latest first. -/
def arrayItems : Nat → Nat → List Value → List Char → Except TomlError (Value × List Char)
  | 0, _, _, _ => malformed
  | fuel + 1, calls, done, s =>
    match s with
    | ']' :: rest => .ok (.list done.reverse, rest)
    | s => do
      let (item, rest) ← value fuel calls s
      match ← skipBlank rest with
      | ']' :: rest => return (.list (item :: done).reverse, rest)
      | ',' :: rest => arrayItems fuel calls (item :: done) (← skipBlank rest)
      | _ => malformed

/-- The entries of an inline table behind those in `entries`. -/
def inlineEntries :
    Nat → Nat → Entries → Marks → List Char → Except TomlError (Value × List Char)
  | 0, _, _, _, _ => malformed
  | fuel + 1, calls, entries, marks, s => do
    let (key, rest) ← key s
    match rest with
    | '=' :: rest =>
      let (item, rest) ← value fuel calls (skipSpace rest)
      if marks.holds .frozen key then malformed
      let entries ← Entries.change false (Entries.addNew (key.getLast?.getD "") item)
        key.dropLast entries
      match skipSpace rest with
      | '\x7d' :: rest => return (.table entries, rest)
      | ',' :: rest =>
        let marks := if isInline item then (key, .frozen) :: marks else marks
        inlineEntries fuel calls entries marks (skipSpace rest)
      | _ => malformed
    | _ => malformed

end

/-- Enough fuel for the value at the start of a text. -/
def valueFuel (s : List Char) : Nat :=
  2 * s.length + 2

section Statements

variable (calls : Nat)

/-- One line of a text that is neither empty nor a comment alone. -/
def statement (b : Builder) (s : List Char) : Except TomlError (Builder × List Char) :=
  match s with
  | '[' :: '[' :: rest => do
    let (key, rest) ← key (skipSpace rest)
    let b ← b.settle.openArray key
    match rest with
    | ']' :: ']' :: rest => return (b, rest)
    | _ => malformed
  | '[' :: rest => do
    let (key, rest) ← key (skipSpace rest)
    let b ← b.settle.openTable key
    match rest with
    | ']' :: rest => return (b, rest)
    | _ => malformed
  | s => do
    let (key, rest) ← key s
    match rest with
    | '=' :: rest =>
      let rest := skipSpace rest
      let (item, rest) ← value (valueFuel rest) calls rest
      return (← b.assign key item, rest)
    | _ => malformed

def lines : Nat → Builder → List Char → Except TomlError Builder
  | 0, b, _ => .ok b
  | fuel + 1, b, s =>
    match skipSpace s with
    | [] => .ok b
    | '\n' :: rest => lines fuel b rest
    | s => do
      let (b, rest) ← if s.head? = some '#' then .ok (b, s) else statement calls b s
      match ← skipComment (skipSpace rest) with
      | [] => return b
      | '\n' :: rest => lines fuel b rest
      | _ => malformed

end Statements

/-- Line breaks of two characters count as one. -/
def normalBreaks : List Char → List Char
  | '\r' :: '\n' :: rest => '\n' :: normalBreaks rest
  | c :: rest => c :: normalBreaks rest
  | [] => []

/-- The table that a text describes, read with so many calls open within one another at most. -/
def parse (calls : Nat) (text : String) : Except TomlError Entries :=
  let s := normalBreaks text.toList
  (lines calls (s.length + 1) .empty s).map Builder.entries

end CssHighlight.Toml
