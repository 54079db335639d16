import CssHighlight.Text.Blank
import CssHighlight.Text.Case

/-!
# Keyword lists

A keyword list is a sorted list of words in lower case. A word may end in a delimiter, such as
`nth-child(`; a lookup with that delimiter accepts the name in front of it. Both lookups search
by bisection.
-/
namespace CssHighlight

/-- Puts a word into its place in a sorted list, once. -/
def insertWord (word : String) : List String → List String
  | [] => [word]
  | head :: rest =>
    if word < head then word :: head :: rest
    else if word = head then head :: rest
    else head :: insertWord word rest

theorem mem_insertWord {word x : String} {words : List String} :
    x ∈ insertWord word words ↔ x = word ∨ x ∈ words := by
  induction words with
  | nil => simp [insertWord]
  | cons head rest ih =>
    unfold insertWord
    split
    · simp
    · split
      next equal => subst equal; simp
      · simp only [List.mem_cons, ih]
        exact or_left_comm

theorem insertWord_pairwise {word : String} {words : List String}
    (sorted : words.Pairwise (· < ·)) : (insertWord word words).Pairwise (· < ·) := by
  induction words with
  | nil => simp [insertWord]
  | cons head rest ih =>
    have above := (List.pairwise_cons.mp sorted).1
    have tail := (List.pairwise_cons.mp sorted).2
    unfold insertWord
    split
    next below =>
      refine List.pairwise_cons.mpr ⟨fun x member => ?_, sorted⟩
      rcases List.mem_cons.mp member with rfl | member
      · exact below
      · exact String.lt_trans below (above x member)
    next notBelow =>
      split
      · exact sorted
      next different =>
        refine List.pairwise_cons.mpr ⟨fun x member => ?_, ih tail⟩
        rcases mem_insertWord.mp member with rfl | member
        · exact Decidable.byContradiction fun notAbove =>
            different (String.le_antisymm notAbove notBelow)
        · exact above x member

/-- Distinct words in increasing order. -/
structure KeywordList where
  words : Array String
  sorted : words.toList.Pairwise (· < ·)
  deriving DecidableEq

namespace KeywordList

instance : Inhabited KeywordList := ⟨⟨#[], by simp⟩⟩

/-- The form under which a word is kept: trimmed and in lower case. -/
def normalForm (word : String) : String :=
  Text.lower (Text.trim word)

/-- The words in order, each once. -/
def sortWords (words : List String) : List String :=
  words.foldr insertWord []

theorem sortWords_pairwise (words : List String) : (sortWords words).Pairwise (· < ·) := by
  induction words with
  | nil => simp [sortWords]
  | cons head rest ih => exact insertWord_pairwise ih

def ofWords (words : List String) : KeywordList where
  words := (sortWords ((words.filter fun word => Text.trim word ≠ "").map normalForm)).toArray
  sorted := sortWords_pairwise _

def size (list : KeywordList) : Nat :=
  list.words.size

/-- The first index, from `low` up to `high`, at which the words are not below `name`. -/
def bisect (words : Array String) (name : String) (low high : Nat) : Nat :=
  if h : low < high then
    let middle := (low + high) / 2
    if (words[middle]?.getD "") < name then bisect words name (middle + 1) high
    else bisect words name low middle
  else low
termination_by high - low

/-- The index of the first word that is not below `name`. -/
def position (list : KeywordList) (name : String) : Nat :=
  bisect list.words name 0 list.words.size

/-- Whether `name` is one of the words. No name, and the empty one, is none. -/
def contains (list : KeywordList) : Option String → Bool
  | none => false
  | some name => name ≠ "" && list.words[list.position name]? == some name

/-- Walks over the words that begin with `name` until one ends there or goes on with `marker`. -/
def matchesFrom (name marker : List Char) : List String → Bool
  | [] => false
  | word :: rest =>
    if name.isPrefixOf word.toList then
      match word.toList.drop name.length with
      | [] => true
      | c :: _ => if [c] = marker then true else matchesFrom name marker rest
    else false

/-- Whether `name` is one of the words, alone or followed by `marker`. -/
def containsPrefixed (list : KeywordList) (marker : String) : Option String → Bool
  | none => false
  | some name =>
    name ≠ "" &&
      matchesFrom name.toList marker.toList (list.words.toList.drop (list.position name))

def describe (list : KeywordList) : String :=
  s!"KeywordList({list.size} words)"

end KeywordList

end CssHighlight
