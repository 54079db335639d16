import CssHighlight.Cursor
import CssHighlight.Proofs.LineTexts

/-!
# Where a cursor is

A cursor keeps its line as it walks: it goes to the next line when the last character of a line is
behind it, and searches for no line but the first. As long as it stands in the text, what it keeps
is what a search for its position would find, whatever runs it has styled on its way.
-/
namespace CssHighlight

namespace Document

variable {d : Document}

/-- A position is the last one of its line: a line break ends with its character, or the text
does. -/
def LastOfLine (d : Document) (position : Int) : Prop :=
  ∃ before c rest, d.text = before ++ c :: rest ∧ position = before.length ∧
    (endsLine c rest = true ∨ rest = [])

/-- The line of a position has started, and the next one has not. -/
theorem startOf_lineAt_le {position : Nat} (inside : position < d.text.length) :
    d.startOf (lineEnds position d.text) ≤ position ∧
      position < d.startOf (lineEnds position d.text + 1 : Nat) :=
  ⟨lineStart_lineEnds_le position d.text, lt_lineStart_lineEnds_succ inside⟩

/-- Where the next line starts behind a position, it holds the position behind. -/
theorem lineEnds_succ_of_starts {position : Nat} (inside : position + 1 < d.text.length)
    (starts : d.startOf (lineEnds position d.text + 1 : Nat) = position + 1) :
    lineEnds (position + 1) d.text = lineEnds position d.text + 1 := by
  by_cases inner : lineEnds position d.text + 1 < d.lineCount
  · have count := (startOf_line inner).2
    rwa [starts] at count
  · -- Behind the last line only the end of the text starts.
    have ended := startOf_end (Nat.le_of_not_lt inner)
    omega

/-- Where the next line does not start behind a position, the line goes on. -/
theorem lineEnds_succ_of_goesOn {position : Nat} (inside : position < d.text.length)
    (goesOn : d.startOf (lineEnds position d.text + 1 : Nat) ≠ position + 1) :
    lineEnds (position + 1) d.text = lineEnds position d.text := by
  have below : lineEnds position d.text < d.lineCount := lineEnds_lt_length position d.text
  obtain ⟨started, ahead⟩ := startOf_lineAt_le inside
  apply (lineEnds_eq_iff below).mpr
  constructor
  · omega
  · left
    omega

/-- The last position of a line is the one in front of the next line, or of the end of the text. -/
theorem lastOfLine_iff {position : Nat} (inside : position < d.text.length) :
    d.LastOfLine position ↔ d.startOf (lineEnds position d.text + 1 : Nat) = position + 1 := by
  obtain ⟨-, ahead⟩ := startOf_lineAt_le inside
  constructor
  · rintro ⟨before, c, rest, cut, at_, ends | rfl⟩
    · -- A line starts behind the character that ends the line.
      obtain rfl : position = before.length := by omega
      have member : before.length + 1 ∈ lineStarts d.text :=
        mem_lineStarts_iff.mpr (.inr ⟨before, c, rest, cut, rfl, ends⟩)
      have next := lineEnds_succ_of_endsLine cut ends
      have found := startOf_lineAt d member
      rwa [lineAt_eq, next] at found
    · -- Behind the text there is nothing but its end, where the next line is said to start.
      have length := congrArg List.length cut
      rw [List.length_append, List.length_singleton] at length
      have bound := startOf_le d (lineEnds position d.text + 1)
      omega
  · intro starts
    by_cases inner : lineEnds position d.text + 1 < d.lineCount
    · have member := (startOf_line inner).1
      rcases mem_lineStarts_iff.mp member with zero | ⟨before, c, rest, cut, at_, ends⟩
      · omega
      · exact ⟨before, c, rest, cut, by omega, .inl ends⟩
    · -- The position is the last one of the text.
      have ended := startOf_end (Nat.le_of_not_lt inner)
      refine ⟨d.text.take position, d.text[position], [], ?_, ?_, .inr rfl⟩
      · rw [List.take_append_getElem, List.take_of_length_le (by omega)]
      · rw [List.length_take]
        omega

theorem text_paint (d : Document) (start stop : Int) (style : Style) :
    (d.paint start stop style).1.text = d.text := by
  simp only [paint]
  split
  · rfl
  · split <;> rfl

end Document

namespace Cursor

/-- What is done with a cursor while it walks over a range. -/
inductive Move where
  | forward
  | startRun (style : Style)
  | restyleRun (style : Style)
  deriving DecidableEq, Repr

/-- The cursor behind a move, also where the move has failed to style the run in progress. -/
def Move.apply (c : Cursor) : Move → Cursor
  | .forward => c.forward
  | .startRun style => (c.startRun style).1
  | .restyleRun style => c.restyleRun style

def follow (c : Cursor) (moves : List Move) : Cursor :=
  moves.foldl Move.apply c

/-- What a cursor keeps is what a search for its position finds in the document, and what stands
there in the text. -/
structure Agrees (d : Document) (c : Cursor) : Prop where
  line : c.line = d.lineAt c.position
  atLineStart : c.atLineStart = true ↔ c.position = d.startOf c.line
  atLineEnd : c.atLineEnd = true ↔ d.LastOfLine c.position
  previous : c.previous = if 0 < c.position then d.text[(c.position - 1).toNat]? else none
  current : c.current = d.text[c.position.toNat]?
  next : c.next = d.text[(c.position + 1).toNat]?
  runStart : c.runStart ≤ c.position

/-- The line of a position, the start of the next one, and whether the line starts there. -/
structure OnLine (d : Document) (position line nextLineStart : Int) (atLineStart : Bool) :
    Prop where
  line_eq : line = d.lineAt position
  next_eq : nextLineStart = d.startOf (line + 1)
  starts_iff : atLineStart = true ↔ position = d.startOf line

/-- What holds of a cursor wherever it stands. Its line is known only as long as it is in the
text. -/
structure Placed (d : Document) (c : Cursor) : Prop where
  text : c.document.text = d.text
  nonneg : 0 ≤ c.position
  runStart : c.runStart ≤ c.position
  previous : c.previous = d.charAt (c.position - 1)
  current : c.current = d.charAt c.position
  next : c.next = d.charAt (c.position + 1)
  atLineEnd : c.atLineEnd = true ↔ c.nextLineStart ≤ c.position + 1
  onLine : c.position < d.text.length →
    OnLine d c.position c.line c.nextLineStart c.atLineStart

namespace OnLine

variable {d : Document} {line nextLineStart : Int} {position : Nat} {atLineStart : Bool}

/-- At the last character of a line the next line starts behind it. -/
theorem lastOfLine_iff (h : OnLine d position line nextLineStart atLineStart)
    (inside : position < d.text.length) :
    nextLineStart ≤ position + 1 ↔ d.LastOfLine position := by
  obtain ⟨rfl, rfl, -⟩ := h
  obtain ⟨-, ahead⟩ := Document.startOf_lineAt_le inside
  rw [Document.lastOfLine_iff inside, Document.lineAt_eq, Document.startOf_succ]
  omega

/-- Behind the last character of a line stands the first one of the next line. -/
theorem enter (h : OnLine d position line nextLineStart atLineStart)
    (inside : position + 1 < d.text.length) (ends : nextLineStart ≤ position + 1) :
    OnLine d (position + 1 : Nat) (line + 1) (d.startOf (line + 2)) true := by
  obtain ⟨rfl, rfl, -⟩ := h
  obtain ⟨-, ahead⟩ := Document.startOf_lineAt_le (Nat.lt_of_succ_lt inside)
  rw [Document.lineAt_eq, Document.startOf_succ] at ends
  have starts : d.startOf (lineEnds position d.text + 1 : Nat) = position + 1 := by omega
  have line := Document.lineEnds_succ_of_starts inside starts
  rw [Document.lineAt_eq]
  refine ⟨?_, rfl, ?_⟩
  · rw [Document.lineAt_eq, line]
    rfl
  · exact iff_of_true rfl (congrArg Nat.cast starts.symm)

/-- Behind any other character stands one of the same line. -/
theorem stay (h : OnLine d position line nextLineStart atLineStart)
    (inside : position < d.text.length) (goesOn : ¬nextLineStart ≤ position + 1) :
    OnLine d (position + 1 : Nat) line nextLineStart false := by
  obtain ⟨rfl, rfl, -⟩ := h
  obtain ⟨started, -⟩ := Document.startOf_lineAt_le inside
  rw [Document.lineAt_eq] at goesOn ⊢
  have next : d.startOf (lineEnds position d.text + 1 : Nat) ≠ position + 1 := by
    intro starts
    exact goesOn (Int.le_of_eq (congrArg Nat.cast starts))
  refine ⟨?_, rfl, ?_⟩
  · rw [Document.lineAt_eq, Document.lineEnds_succ_of_goesOn inside next]
  · refine iff_of_false Bool.false_ne_true ?_
    omega

end OnLine

section Placed

variable {d d' : Document} {c : Cursor}

theorem startOf_congr (same : d'.text = d.text) (line : Int) :
    d'.startOf line = d.startOf line := by
  simp only [Document.startOf, Document.length, same]

theorem charAt_congr (same : d'.text = d.text) (position : Int) :
    d'.charAt position = d.charAt position := by
  simp only [Document.charAt, same]

/-- A cursor is placed where it is loaded. -/
theorem placed_load (text : c.document.text = d.text) (nonneg : 0 ≤ c.position)
    (runStart : c.runStart ≤ c.position)
    (onLine : c.position < d.text.length →
      OnLine d c.position c.line c.nextLineStart c.atLineStart) :
    Placed d c.load where
  text := text
  nonneg := nonneg
  runStart := runStart
  previous := charAt_congr text _
  current := charAt_congr text _
  next := charAt_congr text _
  atLineEnd := by
    simp only [load, decide_eq_true_eq]
    omega
  onLine := onLine

theorem placed_ofRange (d : Document) {start : Int} (low : 0 ≤ start) (length : Int)
    (style : Style) : Placed d (ofRange d start length style) := by
  unfold ofRange
  apply placed_load
  · rfl
  · exact low
  · exact Int.le_refl start
  · intro _
    refine ⟨rfl, rfl, ?_⟩
    rw [decide_eq_true_eq]
    exact eq_comm

theorem forward_eq (more : c.hasMore = true) :
    c.forward =
      if c.atLineEnd then
        load { c with
          position := c.position + 1
          line := c.line + 1
          nextLineStart := c.document.startOf (c.line + 2)
          atLineStart := true }
      else load { c with position := c.position + 1, atLineStart := false } := by
  simp only [forward, more, if_true]
  cases c.atLineEnd <;> rfl

/-- A step forward goes to the next line behind the last character of a line, and stays in the line
behind any other one. -/
theorem Placed.forward (h : Placed d c) : Placed d c.forward := by
  by_cases more : c.hasMore = true
  · have nonneg : 0 ≤ c.position + 1 := Int.le_trans h.nonneg (Int.le_add_one (Int.le_refl _))
    have runStart : c.runStart ≤ c.position + 1 := Int.le_add_one h.runStart
    obtain ⟨position, at_⟩ := Int.eq_ofNat_of_zero_le h.nonneg
    -- A step that stays in the text has begun in the text, where the line is known.
    have onLine (inside : c.position + 1 < d.text.length) :
        OnLine d position c.line c.nextLineStart c.atLineStart := by
      rw [← at_]
      exact h.onLine (Int.lt_trans (Int.lt_succ c.position) inside)
    rw [forward_eq more]
    split
    next ends =>
      refine placed_load h.text nonneg runStart ?_
      intro inside
      have entered := (onLine inside).enter (by dsimp only at inside; omega)
        (at_ ▸ h.atLineEnd.mp ends)
      rw [Int.natCast_succ, ← at_, ← startOf_congr h.text] at entered
      exact entered
    next goesOn =>
      refine placed_load h.text nonneg runStart ?_
      intro inside
      have stayed := (onLine inside).stay (by dsimp only at inside; omega)
        (at_ ▸ fun reached => goesOn (h.atLineEnd.mpr reached))
      rw [Int.natCast_succ, ← at_] at stayed
      exact stayed
  · -- At the end of its range a cursor does not move.
    have stays : c.forward = c := by
      rw [Cursor.forward, if_neg more]
    rw [stays]
    exact h

/-- Styling the run in progress leaves the text alone, also where it fails. -/
theorem Placed.startRun (h : Placed d c) (style : Style) : Placed d (c.startRun style).1 := by
  have text := Document.text_paint c.document c.runStart (min c.position c.stop) c.style
  unfold Cursor.startRun
  split
  next painted found =>
    rw [found] at text
    exact { h with text := text.trans h.text, runStart := Int.le_refl _ }
  next painted cause found =>
    -- The run goes on where it could not be styled.
    rw [found] at text
    exact { h with text := text.trans h.text }

theorem Placed.restyleRun (h : Placed d c) (style : Style) : Placed d (c.restyleRun style) :=
  { h with }

theorem Placed.apply (h : Placed d c) (move : Move) : Placed d (move.apply c) := by
  cases move with
  | forward => exact h.forward
  | startRun style => exact h.startRun style
  | restyleRun style => exact h.restyleRun style

theorem Placed.follow (h : Placed d c) (moves : List Move) : Placed d (c.follow moves) := by
  induction moves generalizing c with
  | nil => exact h
  | cons move moves ih => exact ih (h.apply move)

/-- In the text, a cursor keeps what a search finds. -/
theorem Placed.agrees (h : Placed d c) (inside : c.position < d.text.length) : Agrees d c := by
  have onLine := h.onLine inside
  obtain ⟨position, at_⟩ := Int.eq_ofNat_of_zero_le h.nonneg
  exact {
    line := onLine.line_eq
    atLineStart := onLine.starts_iff
    atLineEnd := by
      rw [h.atLineEnd, at_]
      rw [at_] at onLine inside
      exact onLine.lastOfLine_iff (Int.ofNat_lt.mp inside)
    previous := by
      have behind : 0 ≤ c.position - 1 ↔ 0 < c.position := by omega
      rw [h.previous, Document.charAt]
      simp only [behind]
    current := by rw [h.current, Document.charAt, if_pos h.nonneg]
    next := by rw [h.next, Document.charAt, if_pos (Int.le_add_one h.nonneg)]
    runStart := h.runStart }

end Placed

/-- Wherever a cursor has been moved to from a place of the text, whatever it has styled on its
way, and whether or not it could: as long as it is in the text, its line is the one that a search
finds, it knows whether it is at the start or at the end of that line, it has the characters around
it, and its run has started at it or in front of it. -/
theorem follow_agrees (d : Document) {start : Int} (low : 0 ≤ start) (length : Int)
    (style : Style) (moves : List Move)
    (inside : ((ofRange d start length style).follow moves).position < d.length) :
    Agrees d ((ofRange d start length style).follow moves) :=
  ((placed_ofRange d low length style).follow moves).agrees inside

/-- Behind a carriage return with its line feed, a cursor stands on a line of one character, which
is a carriage return of its own. -/
theorem follow_agrees_emptyLine :
    let d := Document.ofChars ['a', '\r', '\n', '\r', 'b']
    let moves : List Move :=
      [.forward, .startRun .tag, .forward, .forward, .restyleRun .blockComment]
    let c := (ofRange d 0 5 .default).follow moves
    (0 : Int) ≤ 0 ∧ c.position < d.length ∧ Agrees d c ∧
      c.line = 1 ∧ c.atLineStart = true ∧ c.atLineEnd = true ∧ c.runStart = 1 := by
  intro d moves c
  have low : (0 : Int) ≤ 0 := by decide
  have inside : c.position < d.length := by decide
  exact ⟨low, inside, follow_agrees d low 5 .default moves inside, by decide⟩

end Cursor

end CssHighlight
