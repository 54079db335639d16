import CssHighlight.Proofs.LineBreaks
import CssHighlight.Proofs.TokenRuns

/-!
# The lines of a text

The line table cuts a text at its line breaks: it has one line more than there are line breaks,
every line but the last ends with one, and none has another line break in it. A position lies in
one line only, the one that has started there while the next one has not, and a search that halves
the table finds it.
-/
namespace CssHighlight

/-- How many line breaks a text has. A carriage return with a line feed behind it is one. -/
def breakCount : List Char → Nat
  | [] => 0
  | '\r' :: '\n' :: rest => breakCount rest + 1
  | c :: rest => breakCount rest + if isLineBreak c then 1 else 0

/-- The first index, from `low` up to `high`, at which a line starts behind the position, as it is
found by halving. -/
def bisectRight (starts : List Nat) (position : Int) (low high : Nat) : Nat :=
  if low < high then
    let middle := (low + high) / 2
    if position < (starts[middle]?.getD 0 : Nat) then bisectRight starts position low middle
    else bisectRight starts position (middle + 1) high
  else low
termination_by high - low

/-- The starts up to a position are counted by halving, as long as they increase. -/
theorem bisectRight_eq_countP {starts : List Nat} (sorted : starts.Pairwise (· < ·))
    (position : Int) {low high : Nat} (fits : high ≤ starts.length)
    (below : low ≤ starts.countP fun start : Nat => (start : Int) ≤ position)
    (above : (starts.countP fun start : Nat => (start : Int) ≤ position) ≤ high) :
    bisectRight starts position low high =
      starts.countP fun start : Nat => (start : Int) ≤ position := by
  have down : ∀ a b : Nat, a < b → decide ((b : Int) ≤ position) = true →
      decide ((a : Int) ≤ position) = true := by
    simp only [decide_eq_true_eq]
    omega
  -- What is asked of the start in the middle tells on which side of it the count lies.
  have asked {middle : Nat} (inside : middle < starts.length) :
      middle < (starts.countP fun start : Nat => (start : Int) ≤ position) ↔
        ¬position < (starts[middle]?.getD 0 : Nat) := by
    have found := List.getElem?_eq_getElem inside
    rw [lt_countP_iff down sorted found, found, Option.getD_some, decide_eq_true_eq, Int.not_lt]
  fun_induction bisectRight starts position low high with
  | case1 low high open_ middle ahead ih =>
    have side := asked (show middle < starts.length by omega)
    exact ih (by omega) below (Nat.le_of_not_lt fun counted => side.mp counted ahead)
  | case2 low high open_ middle reached ih =>
    have side := asked (show middle < starts.length by omega)
    exact ih fits (side.mpr reached) above
  | case3 low high closed => omega

section Breaks

variable {c : Char} {text piece rest : List Char}

theorem endsLine_eq_isLineBreak (alone : ∀ rest', c = '\r' → rest ≠ '\n' :: rest') :
    endsLine c rest = isLineBreak c := by
  by_cases return_ : c = '\r'
  · subst return_
    have next : rest.head? ≠ some '\n' := by
      intro feed
      obtain ⟨rest', rfl⟩ := List.head?_eq_some_iff.mp feed
      exact alone rest' rfl rfl
    simp [endsLine, isLineBreak, next]
  · have other : (c == '\r') = false := beq_false_of_ne return_
    simp [endsLine, isLineBreak, other]

/-- A line starts behind every line break, and nowhere else but at the front. -/
theorem lineEnds_length (text : List Char) : lineEnds text.length text = breakCount text := by
  induction text using breakCount.induct with
  | case1 => rfl
  | case2 rest ih =>
    -- Of the two characters only the second one ends a line.
    simp [lineEnds_cons, ih, breakCount, endsLine]
  | case3 c rest alone ih =>
    rw [List.length_cons, lineEnds_cons, ih, endsLine_eq_isLineBreak, breakCount]
    · exact alone
    · rintro rest' rfl rfl
      exact alone rest' rfl rfl

/-- Where no line ends there is no line break. -/
theorem isLineBreak_of_lineEnds_eq_zero (none : lineEnds text.length text = 0) :
    ∀ c ∈ text, isLineBreak c = false := by
  induction text with
  | nil => simp
  | cons c rest ih =>
    rw [List.length_cons, lineEnds_cons] at none
    have clear := ih (Nat.eq_zero_of_add_eq_zero_right none)
    have goesOn : endsLine c rest = false := by
      cases ends : endsLine c rest with
      | false => rfl
      | true => simp [ends] at none
    -- A line break that ends no line is followed by a line feed, which would end one.
    have alone : ∀ rest', c = '\r' → rest ≠ '\n' :: rest' := by
      rintro rest' - rfl
      have feed := clear '\n' List.mem_cons_self
      simp [isLineBreak] at feed
    rw [endsLine_eq_isLineBreak alone] at goesOn
    simpa [goesOn] using clear

theorem lineEnds_succ_of_endsLine (cut : text = piece ++ c :: rest)
    (ends : endsLine c rest = true) :
    lineEnds (piece.length + 1) text = lineEnds piece.length text + 1 := by
  rw [lineEnds_add, cut, List.drop_left, lineEnds_cons, if_pos ends]
  rfl

/-- A piece of text behind which the first line ends has one line break, at its end. -/
theorem exists_lineBreak (none : lineEnds piece.length (piece ++ c :: rest) = 0)
    (ends : endsLine c rest = true) :
    ∃ content, ∃ br ∈ lineBreaks, piece ++ [c] = content ++ br ∧
      ∀ x ∈ content, isLineBreak x = false := by
  induction piece with
  | nil =>
    have single : [c] ∈ lineBreaks := by
      have breaks := isLineBreak_of_endsLine ends
      simp only [isLineBreak, Bool.or_eq_true, beq_iff_eq] at breaks
      rcases breaks with rfl | rfl <;> simp [lineBreaks]
    exact ⟨[], [c], single, rfl, by simp⟩
  | cons b piece ih =>
    rw [List.length_cons, List.cons_append, lineEnds_cons] at none
    have goesOn : endsLine b (piece ++ c :: rest) = false := by
      cases ends : endsLine b (piece ++ c :: rest) with
      | false => rfl
      | true => simp [ends] at none
    have behind := Nat.eq_zero_of_add_eq_zero_right none
    by_cases pair : b = '\r' ∧ ∃ rest', piece ++ c :: rest = '\n' :: rest'
    · -- The line feed of the pair is the character that ends the line.
      obtain ⟨rfl, rest', cut⟩ := pair
      cases piece with
      | nil =>
        obtain ⟨rfl, rfl⟩ := List.cons.inj cut
        exact ⟨[], ['\r', '\n'], by simp [lineBreaks], rfl, by simp⟩
      | cons e piece =>
        obtain ⟨rfl, -⟩ := List.cons.inj cut
        simp [lineEnds_cons, endsLine] at behind
    · obtain ⟨content, br, kind, cut, clear⟩ := ih behind
      have plain : isLineBreak b = false := by
        rw [← goesOn]
        refine (endsLine_eq_isLineBreak ?_).symm
        intro rest' return_ cut
        exact pair ⟨return_, rest', cut⟩
      refine ⟨b :: content, br, kind, by simp [cut], ?_⟩
      simpa [plain] using clear

end Breaks

namespace Document

variable {d : Document} {line : Nat}

/-- The text of a line, with the line break at its end. -/
def lineText (d : Document) (line : Nat) : List Char :=
  slice d.text (d.startOf line) (d.startOf (line + 1 : Nat))

theorem startOf_zero (d : Document) : d.startOf (0 : Nat) = 0 := rfl

theorem startOf_succ (d : Document) (line : Nat) :
    d.startOf ((line : Int) + 1) = d.startOf (line + 1 : Nat) := rfl

theorem startOf_le (d : Document) (line : Nat) : d.startOf line ≤ d.text.length :=
  lineStart_le_length d.text line

theorem startOf_le_succ (d : Document) (line : Nat) :
    d.startOf line ≤ d.startOf (line + 1 : Nat) := by
  by_cases inner : line + 1 < d.lineCount
  · exact Nat.le_of_lt (lineStart_lt_succ inner)
  · rw [startOf_end (Nat.le_of_not_lt inner)]
    exact startOf_le d line

theorem lineText_eq (d : Document) (line : Nat) :
    d.lineText line =
      (d.text.drop (d.startOf line)).take (d.startOf (line + 1 : Nat) - d.startOf line) := by
  have ordered := startOf_le_succ d line
  have inside := startOf_le d (line + 1)
  rw [lineText, slice_eq (by omega) (by omega) (by omega), Int.toNat_natCast]
  congr 1
  omega

/-- The first lines make up the text in front of the next one. -/
theorem flatMap_lineText (d : Document) (count : Nat) :
    (List.range count).flatMap d.lineText = d.text.take (d.startOf count) := by
  induction count with
  | zero => rw [startOf_zero, List.take_zero, List.range_zero, List.flatMap_nil]
  | succ count ih =>
    have ordered := startOf_le_succ d count
    rw [List.range_succ, List.flatMap_append, ih, List.flatMap_cons, List.flatMap_nil,
      List.append_nil, lineText_eq, ← List.take_add, Nat.add_sub_cancel' ordered]

/-- A line with another one below it ends with its only line break. -/
theorem lineText_inner (inner : line + 1 < d.lineCount) :
    ∃ content, ∃ br ∈ lineBreaks, d.lineText line = content ++ br ∧
      ∀ c ∈ content, isLineBreak c = false := by
  have below := Nat.lt_of_succ_lt inner
  have ordered : d.startOf line < d.startOf (line + 1 : Nat) := lineStart_lt_succ inner
  obtain ⟨-, above⟩ := startOf_line below
  obtain ⟨member, upTo⟩ := startOf_line inner
  rcases mem_lineStarts_iff.mp member with zero | ⟨before, c, rest, cut, stop, ends⟩
  · omega
  -- What stands between the start of the line and the character that ends it.
  have piece : d.text.drop (d.startOf line) = before.drop (d.startOf line) ++ c :: rest := by
    rw [cut, List.drop_append_of_le_length (by omega)]
  have text : d.lineText line = before.drop (d.startOf line) ++ [c] := by
    rw [lineText_eq, piece, stop,
      show before.length + 1 - d.startOf line = (before.drop (d.startOf line)).length + 1 by
        rw [List.length_drop]; omega,
      List.take_length_add_append, List.take_succ_cons, List.take_zero]
  rw [text]
  refine exists_lineBreak ?_ ends
  have last := lineEnds_succ_of_endsLine cut ends
  have between := lineEnds_add (d.startOf line) (before.drop (d.startOf line)).length d.text
  rw [List.length_drop, Nat.add_sub_cancel' (by omega), above, piece] at between
  rw [stop, last] at upTo
  rw [List.length_drop]
  omega

theorem lineText_last (last : line + 1 = d.lineCount) :
    ∀ c ∈ d.lineText line, isLineBreak c = false := by
  have below : line < d.lineCount := by omega
  have inside := startOf_le d line
  have text : d.lineText line = d.text.drop (d.startOf line) := by
    rw [lineText_eq, startOf_end (Nat.le_of_eq last.symm), ← List.length_drop,
      List.take_length]
  rw [text]
  apply isLineBreak_of_lineEnds_eq_zero
  -- As many lines end in front of the last one as in the whole text.
  have whole := lineEnds_add (d.startOf line) (d.text.length - d.startOf line) d.text
  rw [Nat.add_sub_cancel' inside, (startOf_line below).2] at whole
  rw [lineCount_eq] at last
  rw [List.length_drop]
  omega

/-- A position lies in the line that has started there while the next one has not. -/
theorem lineEnds_eq_iff {position : Nat} (below : line < d.lineCount) :
    lineEnds position d.text = line ↔ d.startOf line ≤ position ∧
      (position < d.startOf (line + 1 : Nat) ∨ line + 1 = d.lineCount) := by
  have started {line : Nat} (below : line < d.lineCount) :
      line ≤ lineEnds position d.text ↔ d.startOf line ≤ position := by
    obtain ⟨member, count⟩ := startOf_line below
    have found := getElem?_lineEnds member
    rw [count] at found
    exact le_lineEnds_iff found
  have bound : lineEnds position d.text < d.lineCount := lineEnds_lt_length position d.text
  rw [← started below]
  by_cases inner : line + 1 < d.lineCount
  · have next := started inner
    omega
  · omega

/-- The line starts increase from the front of the text on, and there is one more of them than
line breaks. The texts of the lines make up the text; each but the last one has a line break at its
end and none in front of it, and the last one has none. A position up to the end of the text lies
in a line, and in no other one: it is the line that has started while the next one has not. The
search that halves the table finds it. -/
theorem lineTable (d : Document) :
    ((lineStarts d.text).Pairwise (· < ·) ∧ (lineStarts d.text).head? = some 0 ∧
      (lineStarts d.text).length = breakCount d.text + 1) ∧
    ((List.range d.lineCount).flatMap d.lineText = d.text ∧
      (∀ line : Nat, line + 1 < d.lineCount →
        ∃ content, ∃ br ∈ lineBreaks, d.lineText line = content ++ br ∧
          ∀ c ∈ content, isLineBreak c = false) ∧
      ∀ c ∈ d.lineText (d.lineCount - 1), isLineBreak c = false) ∧
    (∀ position line : Int, 0 ≤ position → position ≤ d.length →
      (d.lineAt position = line ↔ 0 ≤ line ∧ line < d.lineCount ∧ d.startOf line ≤ position ∧
        (position < d.startOf (line + 1) ∨ line + 1 = d.lineCount))) ∧
    ∀ position : Int, d.lineAt position =
      (bisectRight (lineStarts d.text) position 0 d.lineCount : Nat) - 1 := by
  have positive : 0 < d.lineCount := by
    rw [lineCount_eq]
    exact Nat.succ_pos _
  have sorted := lineStarts_pairwise d.text
  refine ⟨⟨sorted, rfl, ?_⟩, ⟨?_, fun _ => lineText_inner, ?_⟩, ?_, ?_⟩
  · rw [length_lineStarts, lineEnds_length]
  · rw [flatMap_lineText, startOf_end (Nat.le_refl _), List.take_length]
  · exact lineText_last (Nat.sub_add_cancel positive)
  · intro position line low _
    obtain ⟨position, rfl⟩ := Int.eq_ofNat_of_zero_le low
    rw [lineAt_eq]
    constructor
    · rintro rfl
      have below : lineEnds position d.text < d.lineCount := lineEnds_lt_length position d.text
      obtain ⟨started, ahead⟩ := (lineEnds_eq_iff below).mp rfl
      exact ⟨by omega, by omega, by omega, by rw [startOf_succ]; omega⟩
    · rintro ⟨nonneg, below, started, ahead⟩
      obtain ⟨line, rfl⟩ := Int.eq_ofNat_of_zero_le nonneg
      rw [startOf_succ] at ahead
      have inside : line < d.lineCount := by omega
      have found : lineEnds position d.text = line :=
        (lineEnds_eq_iff inside).mpr ⟨by omega, by omega⟩
      rw [found]
  · intro position
    rw [bisectRight_eq_countP sorted position (Nat.le_refl d.lineCount) (Nat.zero_le _)
      List.countP_le_length]
    rfl

/-- Behind a carriage return with its line feed, a carriage return of its own makes up a line. -/
theorem lineTable_returns :
    let d := ofChars ['a', '\r', '\n', '\r', 'b']
    1 + 1 < d.lineCount ∧
      (∃ content, ∃ br ∈ lineBreaks, d.lineText 1 = content ++ br ∧
        ∀ c ∈ content, isLineBreak c = false) ∧
      (0 : Int) ≤ 3 ∧ (3 : Int) ≤ d.length ∧ d.lineAt 3 = 1 := by
  intro d
  have inner : 1 + 1 < d.lineCount := by decide
  have low : (0 : Int) ≤ 3 := by decide
  have high : (3 : Int) ≤ d.length := by decide
  obtain ⟨-, ⟨-, texts, -⟩, positions, -⟩ := lineTable d
  exact ⟨inner, texts 1 inner, low, high, (positions 3 1 low high).mpr (by decide)⟩

end Document

end CssHighlight
