import CssHighlight.Document.Tokens
import CssHighlight.LineState

/-!
# Listings

A listing has one row for every token that is more than blank text, or one row for every line with
its fold levels and its line state. The columns are separated by tabs.
-/
namespace CssHighlight.CommandLine

def hexText (width n : Nat) : String :=
  "0x" ++ String.ofList (Text.hexDigits width n)

def tokenRow (token : Token) : String :=
  s!"{token.start}\t{token.stop}\t{token.style.name}\t" ++
    Text.quoted (String.ofList token.text)

/-- Whether a token is left out of a listing. -/
def isBlankToken (token : Token) : Bool :=
  token.style == .default && Text.isAllBlank token.text

def tokenRows (d : Document) : List String :=
  (d.allTokens.filter fun token => !isBlankToken token).map tokenRow

def foldText : Option Int → String
  | none => "-"
  | some level =>
    hexText 1 (FoldLevel.here level).toNat ++ "->" ++ hexText 1 (FoldLevel.next level).toNat ++
      (if FoldLevel.isHeader level then " header" else "")

def stateText : Value → String
  | .int (.ofNat state) => hexText 6 state
  | state => state.toText

def lineRow (number : Nat) (level : Option Int) (state : Value) : String :=
  s!"{number}\t" ++ foldText level ++ "\t" ++ stateText state

def lineRows (d : Document) : List String :=
  (d.foldLevels.zip d.lineStates).zipIdx.map fun line =>
    lineRow (line.2 + 1) line.1.1 line.1.2

end CssHighlight.CommandLine
