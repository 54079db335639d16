import CssHighlight.Text.Ranges

/-!
# White space in names and values

Names are trimmed and word lists are split at white space of the whole character set, which is
wider than the six ASCII characters that separate tokens in a stylesheet.
-/
namespace CssHighlight.Text

/-- Spaces, line and paragraph separators, and the control characters that act as such. -/
def blankRanges : List (Nat × Nat) :=
  [(0x9, 0xD), (0x1C, 0x20), (0x85, 0x85), (0xA0, 0xA0), (0x1680, 0x1680), (0x2000, 0x200A),
   (0x2028, 0x2029), (0x202F, 0x202F), (0x205F, 0x205F), (0x3000, 0x3000)]

def isBlank (c : Char) : Bool :=
  inRanges blankRanges c.toNat

/-- Removes what satisfies `drop` from both ends. -/
def trimWhere (drop : Char → Bool) (s : List Char) : List Char :=
  ((s.dropWhile drop).reverse.dropWhile drop).reverse

def trim (s : String) : String :=
  String.ofList (trimWhere isBlank s.toList)

/-- A text of white space only; the empty text is not one. -/
def isAllBlank (s : List Char) : Bool :=
  !s.isEmpty && s.all isBlank

/-- Collects the pieces of a text between separators; `piece` holds the open one, last character
first. -/
def piecesFrom (separates : Char → Bool) (piece : List Char) : List Char → List String
  | [] => if piece.isEmpty then [] else [String.ofList piece.reverse]
  | c :: rest =>
    if separates c then
      if piece.isEmpty then piecesFrom separates [] rest
      else String.ofList piece.reverse :: piecesFrom separates [] rest
    else piecesFrom separates (c :: piece) rest

/-- The maximal pieces of a text that hold no separator. -/
def pieces (separates : Char → Bool) (s : String) : List String :=
  piecesFrom separates [] s.toList

def words (s : String) : List String :=
  pieces isBlank s

end CssHighlight.Text
