import CssHighlight.Text.Blank

/-!
# Paths

A path is a root and a list of names. Empty names and single dots are dropped when a path is
read; double dots stay, because they cannot be removed without looking at links.
-/
namespace CssHighlight

structure Path where
  /-- Empty for a relative path; two leading slashes are kept apart from one. -/
  root : String
  names : List String
  deriving DecidableEq, Repr, Inhabited

namespace Path

def namesOf (text : String) : List String :=
  Text.pieces (· == '/') text

def isRooted (text : String) : Bool :=
  text.toList.head? == some '/'

def ofText (text : String) : Path where
  root :=
    match (text.toList.takeWhile (· == '/')).length with
    | 0 => ""
    | 2 => "//"
    | _ => "/"
  names := (namesOf text).filter (· ≠ ".")

def toText (p : Path) : String :=
  let text := p.root ++ "/".intercalate p.names
  if text = "" then "." else text

def isAbsolute (p : Path) : Bool :=
  p.root ≠ ""

/-- The path read from a directory. -/
def joinPath (p q : Path) : Path :=
  if q.isAbsolute then q else { p with names := p.names ++ q.names }

def join (p : Path) (text : String) : Path :=
  p.joinPath (ofText text)

def parent (p : Path) : Path :=
  { p with names := p.names.dropLast }

def name (p : Path) : String :=
  p.names.getLast?.getD ""

/-- The part of the last name from its last dot on, unless the dot is its first or last
character. -/
def suffix (p : Path) : String :=
  let behind := (p.name.toList.reverse.takeWhile (· ≠ '.')).reverse
  let before := p.name.length - behind.length
  if behind.isEmpty ∨ before ≤ 1 then "" else String.ofList ('.' :: behind)

end Path

end CssHighlight
