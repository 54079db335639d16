import CssHighlight.Value

/-!
# Lexemes of TOML

Strings, numbers, dates and times. Each reader is given the text at its first character and yields
what it read with the text behind it.
-/
namespace CssHighlight.Toml

/-- Why a text is not accepted. Where and how a malformed text breaks the grammar is not kept. -/
inductive TomlError where
  | malformed
  /-- A decimal number has more digits than a whole number may have. -/
  | tooManyDigits (digits : Nat)
  /-- Arrays and inline tables are nested deeper than the stack of the reader allows. -/
  | tooDeep
  deriving DecidableEq, Repr, Inhabited

def TomlError.message : TomlError → String
  | .malformed => "<TOML>"
  | .tooManyDigits digits =>
    s!"Exceeds the limit ({Text.maxDigits} digits) for integer string conversion: value has " ++
      s!"{digits} digits; use sys.set_int_max_str_digits() to increase the limit"
  | .tooDeep => "maximum recursion depth exceeded"

def malformed {α : Type} : Except TomlError α :=
  .error .malformed

def isSpace (c : Char) : Bool :=
  c == ' ' || c == '\t'

def isSpaceOrNewline (c : Char) : Bool :=
  isSpace c || c == '\n'

def skipSpace (s : List Char) : List Char :=
  s.dropWhile isSpace

/-- Control characters, which may not stand in comments and strings; a tab may. -/
def isIllegal (c : Char) : Bool :=
  (c.toNat < 32 || c.toNat == 127) && c != '\t'

def isIllegalInLines (c : Char) : Bool :=
  isIllegal c && c != '\n'

def isDigit (c : Char) : Bool :=
  '0' ≤ c && c ≤ '9'

def hexValue? (c : Char) : Option Nat :=
  if isDigit c then some (c.toNat - '0'.toNat)
  else if 'a' ≤ c && c ≤ 'f' then some (c.toNat - 'a'.toNat + 10)
  else if 'A' ≤ c && c ≤ 'F' then some (c.toNat - 'A'.toNat + 10)
  else none

/-! ### Strings -/

def charOfHex? (digits : List Char) : Option Char := do
  let values ← digits.mapM hexValue?
  let code := Text.ofDigits 16 values.reverse
  if h : code.isValidChar then some (Char.ofNatAux code h) else none

/-- The character that stands for a letter behind a backslash. -/
def escaped? : Char → Option Char
  | 'b' => some '\x08'
  | 't' => some '\t'
  | 'n' => some '\n'
  | 'f' => some '\x0c'
  | 'r' => some '\r'
  | '"' => some '"'
  | '\\' => some '\\'
  | _ => none

theorem length_dropWhile_le (p : Char → Bool) (s : List Char) :
    (s.dropWhile p).length ≤ s.length :=
  (List.dropWhile_sublist p).length_le

/-- The text behind a backslash at the end of a line: the line break and all blanks after it. -/
def skipLineEnd (s : List Char) : Option (List Char) :=
  match skipSpace s with
  | '\n' :: rest => some (rest.dropWhile isSpaceOrNewline)
  | [] => some []
  | _ => none

theorem length_skipLineEnd_le {s rest : List Char} (h : skipLineEnd s = some rest) :
    rest.length ≤ s.length := by
  unfold skipLineEnd at h
  have bound : (skipSpace s).length ≤ s.length := length_dropWhile_le isSpace s
  split at h
  next tail equal =>
    cases h
    rw [equal, List.length_cons] at bound
    exact Nat.le_trans (length_dropWhile_le _ _) (Nat.le_of_succ_le bound)
  · cases h
    exact Nat.zero_le _
  · cases h

def behindTwoQuotes? : List Char → Option (List Char)
  | '"' :: '"' :: rest => some rest
  | _ => none

/-- The rest of a string in double quotes; `done` holds what was read, last character first. In a
string of several lines three quotes end it, and a backslash at the end of a line joins lines. -/
def basicString (lines : Bool) (done s : List Char) : Except TomlError (List Char × List Char) :=
  match s with
  | [] => malformed
  | '"' :: rest =>
    if lines then
      match behindTwoQuotes? rest with
      | some rest => .ok (done.reverse, rest)
      | none => basicString lines ('"' :: done) rest
    else .ok (done.reverse, rest)
  | '\\' :: 'u' :: a :: b :: c :: d :: rest =>
    match charOfHex? [a, b, c, d] with
    | some char => basicString lines (char :: done) rest
    | none => malformed
  | '\\' :: 'U' :: a :: b :: c :: d :: e :: f :: g :: h :: rest =>
    match charOfHex? [a, b, c, d, e, f, g, h] with
    | some char => basicString lines (char :: done) rest
    | none => malformed
  | '\\' :: c :: rest =>
    if lines && isSpaceOrNewline c then
      match _shorter : skipLineEnd (c :: rest) with
      | some rest => basicString lines done rest
      | none => malformed
    else
      match escaped? c with
      | some char => basicString lines (char :: done) rest
      | none => malformed
  | ['\\'] => malformed
  | c :: rest =>
    if (if lines then isIllegalInLines c else isIllegal c) then malformed
    else basicString lines (c :: done) rest
termination_by s.length
decreasing_by
  all_goals simp only [List.length_cons]
  case _ => omega
  case _ => omega
  case _ => omega
  case _ =>
    have bound := length_skipLineEnd_le _shorter
    simp only [List.length_cons] at bound
    omega
  all_goals omega

def literalString (s : List Char) : Except TomlError (List Char × List Char) :=
  let text := s.takeWhile (· ≠ '\'')
  match s.dropWhile (· ≠ '\'') with
  | _ :: rest => if text.any isIllegal then malformed else .ok (text, rest)
  | [] => malformed

def literalLines (done : List Char) : List Char → Except TomlError (List Char × List Char)
  | '\'' :: '\'' :: '\'' :: rest => .ok (done.reverse, rest)
  | [] => malformed
  | c :: rest => if isIllegalInLines c then malformed else literalLines (c :: done) rest

/-- Up to two more quotes directly behind three closing ones belong to the string. -/
def extraQuotes (quote : Char) (text rest : List Char) : List Char × List Char :=
  match rest with
  | a :: b :: tail =>
    if a = quote ∧ b = quote then (text ++ [quote, quote], tail)
    else if a = quote then (text ++ [quote], b :: tail)
    else (text, rest)
  | [a] => if a = quote then (text ++ [quote], []) else (text, rest)
  | [] => (text, rest)

/-- A line break directly behind three opening quotes does not count. -/
def dropFirstNewline : List Char → List Char
  | '\n' :: rest => rest
  | s => s

/-- A string of any of the four kinds, or nothing if none starts here. -/
def string? (s : List Char) : Option (Except TomlError (List Char × List Char)) :=
  match s with
  | '"' :: '"' :: '"' :: rest =>
    some ((basicString true [] (dropFirstNewline rest)).map fun read =>
      extraQuotes '"' read.1 read.2)
  | '"' :: rest => some (basicString false [] rest)
  | '\'' :: '\'' :: '\'' :: rest =>
    some ((literalLines [] (dropFirstNewline rest)).map fun read =>
      extraQuotes '\'' read.1 read.2)
  | '\'' :: rest => some (literalString rest)
  | _ => none

/-! ### Numbers -/

/-- Digits with single underscores between them: the digits alone, and the text behind. -/
def digitRun (isDigit : Char → Bool) : List Char → List Char × List Char
  | c :: '_' :: d :: rest =>
    if isDigit c then
      if isDigit d then
        let (digits, rest) := digitRun isDigit (d :: rest)
        (c :: digits, rest)
      else ([c], '_' :: d :: rest)
    else ([], c :: '_' :: d :: rest)
  | c :: rest =>
    if isDigit c then
      let (digits, rest) := digitRun isDigit rest
      (c :: digits, rest)
    else ([], c :: rest)
  | [] => ([], [])

/-- A whole number with the digits of a base that is a power of two. -/
def prefixed? (base : Nat) (s : List Char) : Option (Value × List Char) :=
  match digitRun (fun c => (hexValue? c).any (· < base)) s with
  | ([], _) => none
  | (digits, rest) =>
    some (.int (Text.ofDigits base (digits.filterMap hexValue?).reverse), rest)

/-- The part of a number behind its point, with the point, if there is one. -/
def fractionPart : List Char → List Char × List Char
  | '.' :: rest =>
    match digitRun isDigit rest with
    | ([], _) => ([], '.' :: rest)
    | (digits, behind) => ('.' :: digits, behind)
  | s => ([], s)

def exponentPart : List Char → List Char × List Char
  | e :: rest =>
    if e = 'e' ∨ e = 'E' then
      let (sign, body) := match rest with
        | '+' :: body => (['+'], body)
        | '-' :: body => (['-'], body)
        | body => ([], body)
      match digitRun isDigit body with
      | ([], _) => ([], e :: rest)
      | (digits, behind) => ('e' :: sign ++ digits, behind)
    else ([], e :: rest)
  | [] => ([], [])

/-- A decimal number behind its sign. A leading zero stands alone. -/
def decimal? (negative : Bool) (s : List Char) : Option (Except TomlError (Value × List Char)) :=
  let (digits, rest) := match s with
    | '0' :: rest => (['0'], rest)
    | s => digitRun isDigit s
  if digits.isEmpty then none
  else
    let (fraction, rest) := fractionPart rest
    let (exponent, rest) := exponentPart rest
    if fraction.isEmpty && exponent.isEmpty then
      if Text.maxDigits < digits.length then some (.error (.tooManyDigits digits.length))
      else
        let magnitude : Int := Text.ofDigits 10 (digits.filterMap hexValue?).reverse
        some (.ok (.int (if negative then -magnitude else magnitude), rest))
    else
      match Binary64.unsigned? negative (digits ++ fraction ++ exponent) with
      | some x => some (.ok (.float x, rest))
      | none => none

def number? (s : List Char) : Option (Except TomlError (Value × List Char)) :=
  let based := match s with
    | '0' :: 'x' :: rest => prefixed? 16 rest
    | '0' :: 'b' :: rest => prefixed? 2 rest
    | '0' :: 'o' :: rest => prefixed? 8 rest
    | _ => none
  match based with
  | some read => some (.ok read)
  | none =>
    match s with
    | '+' :: rest => decimal? false rest
    | '-' :: rest => decimal? true rest
    | s => decimal? false s

/-- Infinity and not-a-number, with or without a sign. -/
def specialFloat? : List Char → Option (Value × List Char)
  | 'i' :: 'n' :: 'f' :: rest => some (.float (.infinite false), rest)
  | 'n' :: 'a' :: 'n' :: rest => some (.float .nan, rest)
  | '+' :: 'i' :: 'n' :: 'f' :: rest => some (.float (.infinite false), rest)
  | '+' :: 'n' :: 'a' :: 'n' :: rest => some (.float .nan, rest)
  | '-' :: 'i' :: 'n' :: 'f' :: rest => some (.float (.infinite true), rest)
  | '-' :: 'n' :: 'a' :: 'n' :: rest => some (.float .nan, rest)
  | _ => none

/-! ### Dates and times -/

/-- A number of two digits that is not above `limit`. -/
def twoDigits? (limit : Nat) : List Char → Option (Nat × List Char)
  | a :: b :: rest =>
    if isDigit a && isDigit b then
      let value := (a.toNat - 48) * 10 + (b.toNat - 48)
      if value ≤ limit then some (value, rest) else none
    else none
  | _ => none

def expect? (c : Char) : List Char → Option (List Char)
  | d :: rest => if c = d then some rest else none
  | [] => none

def pad (n : Nat) : String :=
  (if n < 10 then "0" else "") ++ toString n

/-- The fraction of a second in six digits; a fraction of zero is not shown. Further digits are
dropped. -/
def secondFraction (s : List Char) : String × List Char :=
  match s with
  | '.' :: rest =>
    match rest.takeWhile isDigit with
    | [] => ("", s)
    | digits =>
      let six := (digits ++ List.replicate 6 '0').take 6
      (if six.all (· == '0') then "" else String.ofList ('.' :: six), rest.dropWhile isDigit)
  | _ => ("", s)

def time? (s : List Char) : Option (String × List Char) := do
  let (hour, s) ← twoDigits? 23 s
  let (minute, s) ← twoDigits? 59 (← expect? ':' s)
  let (second, s) ← twoDigits? 59 (← expect? ':' s)
  let (fraction, s) := secondFraction s
  return (s!"{pad hour}:{pad minute}:{pad second}" ++ fraction, s)

def timeOffset (s : List Char) : String × List Char :=
  let signed (negative : Bool) (rest : List Char) : Option (String × List Char) := do
    let (hour, rest) ← twoDigits? 23 rest
    let (minute, rest) ← twoDigits? 59 (← expect? ':' rest)
    let sign := if negative && !(hour == 0 && minute == 0) then "-" else "+"
    return (s!"{sign}{pad hour}:{pad minute}", rest)
  match s with
  | 'Z' :: rest => ("+00:00", rest)
  | 'z' :: rest => ("+00:00", rest)
  | '+' :: rest => (signed false rest).getD ("", s)
  | '-' :: rest => (signed true rest).getD ("", s)
  | _ => ("", s)

def isLeapYear (year : Nat) : Bool :=
  year % 4 = 0 && (year % 100 ≠ 0 || year % 400 = 0)

def daysIn (year month : Nat) : Nat :=
  match month with
  | 2 => if isLeapYear year then 29 else 28
  | 4 | 6 | 9 | 11 => 30
  | _ => 31

/-- The year, month and day of a date, not yet checked against the calendar. -/
def yearMonthDay? (s : List Char) : Option ((Nat × Nat × Nat) × List Char) := do
  let (century, s) ← twoDigits? 99 s
  let (year, s) ← twoDigits? 99 s
  let (month, s) ← twoDigits? 12 (← expect? '-' s)
  let (day, s) ← twoDigits? 31 (← expect? '-' s)
  if month = 0 ∨ day = 0 then none
  return ((century * 100 + year, month, day), s)

/-- A date, alone or with a time of day, or nothing if none starts here. -/
def date? (s : List Char) : Option (Except TomlError (Value × List Char)) :=
  match yearMonthDay? s with
  | none => none
  | some ((year, month, day), rest) =>
    if year = 0 ∨ daysIn year month < day then some malformed
    else
      let date := s!"{pad (year / 100)}{pad (year % 100)}-{pad month}-{pad day}"
      let timed := match rest with
        | c :: behind => if c = 'T' ∨ c = 't' ∨ c = ' ' then time? behind else none
        | [] => none
      match timed with
      | some (time, rest) =>
        let (offset, rest) := timeOffset rest
        some (.ok (.date (date ++ "T" ++ time ++ offset), rest))
      | none => some (.ok (.date date, rest))

end CssHighlight.Toml
