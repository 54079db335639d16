import CssHighlight.CharClass
import CssHighlight.Keyword.Set
import CssHighlight.Style

/-!
# Sheets of nested rules

The plainest stylesheets: rules that hold declarations and then further rules, to any depth, with
any blanks between their tokens.

    Sheet        ::=  ws Rule*
    Rule         ::=  name ws '{' ws Declaration* Rule* '}' ws
    Declaration  ::=  name ws ':' ws name (ws1 name)* ws ';' ws

A derivation is read as the list of its pieces, which give the text and the style of every
character.
-/
namespace CssHighlight

namespace Sheet

/-- White space, or none. -/
structure Blanks where
  chars : List Char
  blank : ∀ c ∈ chars, isSeparator c = true

/-- White space between two names. -/
structure Gap extends Blanks where
  wide : chars ≠ []

structure Name where
  first : Char
  others : List Char
  starts : isNameStart first = true
  goesOn : ∀ c ∈ others, isRunChar c = true

def Name.chars (name : Name) : List Char :=
  name.first :: name.others

structure Declaration where
  name : Name
  beforeColon : Blanks
  behindColon : Blanks
  value : Name
  /-- The names that follow in the value, each with the gap before it. -/
  moreValues : List (Gap × Name)
  beforeSemicolon : Blanks
  behindSemicolon : Blanks

/-- Any number of rules, one behind the other. -/
inductive Rules where
  | none
  | rule (name : Name) (beforeBrace behindBrace : Blanks) (declarations : List Declaration)
      (inner : Rules) (behind : Blanks) (others : Rules)

/-! ### Pieces -/

/-- What a piece of a sheet is. -/
inductive Role where
  | blank
  | mark
  | ruleName
  | declarationName
  | valueName
  deriving DecidableEq, Repr

structure Piece where
  role : Role
  chars : List Char

def Blanks.piece (blanks : Blanks) : Piece :=
  ⟨.blank, blanks.chars⟩

def Name.piece (role : Role) (name : Name) : Piece :=
  ⟨role, name.chars⟩

def mark (c : Char) : Piece :=
  ⟨.mark, [c]⟩

/-- The names that follow in a value, with the gaps before them. -/
def gapsAndNames (more : List (Gap × Name)) : List Piece :=
  more.flatMap fun more => [more.1.piece, more.2.piece .valueName]

def Declaration.pieces (d : Declaration) : List Piece :=
  [d.name.piece .declarationName, d.beforeColon.piece, mark ':', d.behindColon.piece,
    d.value.piece .valueName] ++
  gapsAndNames d.moreValues ++
  [d.beforeSemicolon.piece, mark ';', d.behindSemicolon.piece]

def Rules.pieces : Rules → List Piece
  | .none => []
  | .rule name beforeBrace behindBrace declarations inner behind others =>
    [name.piece .ruleName, beforeBrace.piece, mark '{', behindBrace.piece] ++
    declarations.flatMap Declaration.pieces ++ inner.pieces ++ [mark '}', behind.piece] ++
    others.pieces

def textOf (pieces : List Piece) : List Char :=
  pieces.flatMap Piece.chars

/-- The style of a piece. A declaration's name is a known property when it is short enough for a
keyword, and is one in lower case. -/
def Piece.style (keywords : KeywordSet) (piece : Piece) : Style :=
  match piece.role with
  | .blank => .default
  | .mark => .operator
  | .ruleName => .tag
  | .declarationName =>
    if piece.chars.length < 128 ∧ Text.lower (String.ofList piece.chars) ∈ keywords.property.words
    then .property
    else .unknownProperty
  | .valueName => .value

/-- The styles of the pieces' characters. -/
def stylesOf (keywords : KeywordSet) (pieces : List Piece) : List Style :=
  pieces.flatMap fun piece => piece.chars.map fun _ => piece.style keywords

theorem length_stylesOf (keywords : KeywordSet) (pieces : List Piece) :
    (stylesOf keywords pieces).length = (textOf pieces).length := by
  simp only [stylesOf, textOf, List.length_flatMap, List.length_map]

end Sheet

/-- A derivation of the grammar. -/
structure Sheet where
  leading : Sheet.Blanks
  rules : Sheet.Rules

namespace Sheet

def pieces (sheet : Sheet) : List Piece :=
  sheet.leading.piece :: sheet.rules.pieces

def text (sheet : Sheet) : List Char :=
  textOf sheet.pieces

end Sheet

end CssHighlight
