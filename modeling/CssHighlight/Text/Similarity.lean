/-!
# Similar words

How much two words have in common: their longest common piece, and what the texts on both sides of
it have in common in the same way.
-/
namespace CssHighlight.Text

/-- The length of the longest common beginning. -/
def commonLength : List Char → List Char → Nat
  | a :: s, b :: t => if a = b then commonLength s t + 1 else 0
  | _, _ => 0

/-- A piece that two words share: where it starts in each, and its length. -/
structure Shared where
  left : Nat
  right : Nat
  length : Nat

/-- The longest piece that two words share; of several, the first in `s`, then in `t`. -/
def longestShared (s t : List Char) : Shared :=
  let spots := (List.range s.length).flatMap fun i => (List.range t.length).map fun j => (i, j)
  spots.foldl
    (fun best spot =>
      let length := commonLength (s.drop spot.1) (t.drop spot.2)
      if best.length < length then ⟨spot.1, spot.2, length⟩ else best)
    ⟨0, 0, 0⟩

/-- How many characters two words have in common, with at most `fuel` cuts. -/
def sharedCount : Nat → List Char → List Char → Nat
  | 0, _, _ => 0
  | fuel + 1, s, t =>
    let piece := longestShared s t
    if piece.length = 0 then 0
    else
      sharedCount fuel (s.take piece.left) (t.take piece.right) + piece.length +
        sharedCount fuel (s.drop (piece.left + piece.length))
          (t.drop (piece.right + piece.length))

/-- Twice the common characters, and the characters of both words: their quotient is the
similarity. -/
def similarity (s t : String) : Nat × Nat :=
  (2 * sharedCount s.length s.toList t.toList, s.length + t.length)

/-- Whether the similarity is at least three fifths. -/
def isSimilar (s t : String) : Bool :=
  let (num, den) := similarity s t
  3 * den ≤ 5 * num

/-- Whether `s` goes before `t` as a suggestion for `word`: the more similar one does, and of
equally similar ones the later in the alphabet. -/
def goesBefore (word s t : String) : Bool :=
  let (a, b) := similarity s word
  let (c, d) := similarity t word
  if a * d = c * b then decide (t ≤ s) else decide (c * b < a * d)

/-- Up to three words that are similar to a given one, in alphabetical order. -/
def suggestions (word : String) (choices : List String) : List String :=
  (((choices.filter (isSimilar · word)).mergeSort (goesBefore word)).take 3).mergeSort
    fun s t => decide (s ≤ t)

end CssHighlight.Text
