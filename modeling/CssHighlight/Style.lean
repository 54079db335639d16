/-!
# Styles

A style is the lexical category that the scanner assigns to a character of a stylesheet.
-/
namespace CssHighlight

inductive Style where
  | default
  | operator
  | operatorInCalc
  | htmlCommentDelimiter
  | number
  | dimension
  | blockComment
  | blockCommentDoc
  | lineComment
  | lineCommentDoc
  | singleQuoted
  | doubleQuoted
  | url
  | escapeChar
  | unicodeRange
  | variableName
  | atRule
  | identifier
  | pseudoClass
  | unknownPseudoClass
  | pseudoElement
  | unknownPseudoElement
  | function
  | important
  | property
  | unknownProperty
  | value
  | attributeName
  | className
  | idName
  | placeholder
  | tag
  deriving DecidableEq, Repr, Inhabited

namespace Style

def all : List Style :=
  [.default, .operator, .operatorInCalc, .htmlCommentDelimiter, .number, .dimension,
   .blockComment, .blockCommentDoc, .lineComment, .lineCommentDoc, .singleQuoted, .doubleQuoted,
   .url, .escapeChar, .unicodeRange, .variableName, .atRule, .identifier, .pseudoClass,
   .unknownPseudoClass, .pseudoElement, .unknownPseudoElement, .function, .important, .property,
   .unknownProperty, .value, .attributeName, .className, .idName, .placeholder, .tag]

/-- The number that an editor stores for each character. -/
def code (style : Style) : Nat :=
  all.idxOf style

def name : Style → String
  | .default => "DEFAULT"
  | .operator => "OPERATOR"
  | .operatorInCalc => "OPERATOR_IN_CALC"
  | .htmlCommentDelimiter => "HTML_COMMENT_DELIMITER"
  | .number => "NUMBER"
  | .dimension => "DIMENSION"
  | .blockComment => "BLOCK_COMMENT"
  | .blockCommentDoc => "BLOCK_COMMENT_DOC"
  | .lineComment => "LINE_COMMENT"
  | .lineCommentDoc => "LINE_COMMENT_DOC"
  | .singleQuoted => "STRING_SINGLE_QUOTED"
  | .doubleQuoted => "STRING_DOUBLE_QUOTED"
  | .url => "URL"
  | .escapeChar => "ESCAPE_CHAR"
  | .unicodeRange => "UNICODE_RANGE"
  | .variableName => "VARIABLE"
  | .atRule => "AT_RULE"
  | .identifier => "IDENTIFIER"
  | .pseudoClass => "PSEUDO_CLASS"
  | .unknownPseudoClass => "UNKNOWN_PSEUDO_CLASS"
  | .pseudoElement => "PSEUDO_ELEMENT"
  | .unknownPseudoElement => "UNKNOWN_PSEUDO_ELEMENT"
  | .function => "FUNCTION"
  | .important => "IMPORTANT"
  | .property => "PROPERTY"
  | .unknownProperty => "UNKNOWN_PROPERTY"
  | .value => "VALUE"
  | .attributeName => "ATTRIBUTE"
  | .className => "CLASS"
  | .idName => "ID"
  | .placeholder => "PLACEHOLDER"
  | .tag => "TAG"

def ofName? (name : String) : Option Style :=
  all.find? (·.name == name)

/-- Styles of text that does not count when looking for a neighbour: blanks and comments. -/
def isSpace : Style → Bool
  | .default | .blockComment | .blockCommentDoc | .lineComment | .lineCommentDoc
  | .htmlCommentDelimiter => true
  | _ => false

/-- The two styles of a declaration's name. -/
def isProperty : Style → Bool
  | .property | .unknownProperty => true
  | _ => false

end Style

end CssHighlight
