import CssHighlight.Text.CaseContext
import CssHighlight.Text.CaseTable

/-!
# Lower and upper case

The full case mappings: a letter may become several (`ß` becomes `SS`, `İ` becomes an `i` with a
combining dot), and the capital sigma becomes the final form at the end of a word.
-/
namespace CssHighlight.Text

/-- The first of the characters that case does not ignore, when it is a cased one. -/
def meetsCased (s : List Char) : Bool :=
  match s.dropWhile fun c => inRanges caseIgnorableRanges c.toNat with
  | [] => false
  | c :: _ => inRanges casedRanges c.toNat

/-- Lower case of one letter that has a single image. -/
def lowerLetter (c : Char) : Char :=
  match CaseRule.apply? lowerRules c.toNat with
  | some code => Char.ofNat code
  | none => c

/-- Lower case of one character between the text `before` it, nearest first, and the text
`after` it. -/
def lowerChar (before : List Char) (c : Char) (after : List Char) : List Char :=
  if c.toNat < 0x80 then
    [if 'A' ≤ c ∧ c ≤ 'Z' then Char.ofNat (c.toNat + 32) else c]
  else if c = 'İ' then ['i', '\u0307']
  else if c = 'Σ' then [if meetsCased before && !meetsCased after then 'ς' else 'σ']
  else [lowerLetter c]

def lowerFrom (before : List Char) : List Char → List Char
  | [] => []
  | c :: after => lowerChar before c after ++ lowerFrom (c :: before) after

def lowerChars (s : List Char) : List Char :=
  lowerFrom [] s

def lower (s : String) : String :=
  String.ofList (lowerChars s.toList)

def upperChar (c : Char) : List Char :=
  if c.toNat < 0x80 then
    [if 'a' ≤ c ∧ c ≤ 'z' then Char.ofNat (c.toNat - 32) else c]
  else
    match upperExpansions.lookup c.toNat with
    | some codes => codes.map Char.ofNat
    | none =>
      match CaseRule.apply? upperRules c.toNat with
      | some code => [Char.ofNat code]
      | none => [c]

def upper (s : String) : String :=
  String.ofList (s.toList.flatMap upperChar)

end CssHighlight.Text
