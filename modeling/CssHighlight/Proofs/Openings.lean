import CssHighlight.Proofs.Depths

/-!
# Open parentheses and brackets

In a dialect without interpolations the number of parentheses that are open behind a line, and
whether a bracket is open there, follow from the punctuation in front of the next line. No name
has to be read for them, not even the one of a bare address.
-/
namespace CssHighlight

/-- How many parentheses are open, and whether a bracket is. -/
structure Openings where
  parens : Nat
  inBrackets : Bool
  deriving DecidableEq, Repr

namespace Openings

def none : Openings := ⟨0, false⟩

/-- What a character of punctuation opens or closes. No more than 255 parentheses are counted. -/
def read (x : Openings) (c : Char) : Openings :=
  match c with
  | '(' => { x with parens := min (x.parens + 1) 255 }
  | ')' => { x with parens := x.parens - 1 }
  | '[' => { x with inBrackets := true }
  | ']' => { x with inBrackets := false }
  | '{' | '}' => none
  | _ => x

/-- What is open behind styled characters, of which only the punctuation is read. -/
def ofEntries (entries : List (Char × Style)) : Openings :=
  ((entries.filter fun entry => entry.2 = .operator).map Prod.fst).foldl read none

variable {c : Char} {style : Style}

theorem ofEntries_concat_operator (entries : List (Char × Style)) :
    ofEntries (entries ++ [(c, .operator)]) = (ofEntries entries).read c := by
  simp [ofEntries]

theorem ofEntries_concat_other (other : style ≠ .operator) (entries : List (Char × Style)) :
    ofEntries (entries ++ [(c, style)]) = ofEntries entries := by
  simp [ofEntries, other]

end Openings

namespace Nesting

/-- The part of the nesting that shows what is open. -/
structure Shows (x : Nesting) (y : Openings) : Prop where
  parens : x.parens = y.parens
  brackets : x.brackets = y.inBrackets

/-- Punctuation does the same to the nesting and to what is open, whatever name stands in front
of it. -/
theorem Shows.track {x : Nesting} {y : Openings} (h : x.Shows y) (kind : ParenKind) (c : Char) :
    (x.track kind c).Shows (y.read c) := by
  obtain ⟨parens, brackets⟩ := h
  have most : maxParenDepth = 255 := rfl
  unfold Nesting.track
  split
  · refine ⟨?_, brackets⟩
    simp only [enter, Openings.read]
    omega
  · refine ⟨?_, brackets⟩
    simp only [leave, Openings.read]
    omega
  · exact ⟨parens, rfl⟩
  · exact ⟨parens, rfl⟩
  · exact ⟨rfl, rfl⟩
  · exact ⟨rfl, rfl⟩
  next =>
    have same : y.read c = y := by
      unfold Openings.read
      split <;> simp_all
    rw [same]
    exact ⟨parens, brackets⟩

end Nesting

/-- The nesting behind styled characters, the last of which comes first, shows what is open behind
them. -/
theorem nestingOf_shows (keywords : KeywordSet) (before : List (Char × Style)) :
    (nestingOf keywords before).Shows (.ofEntries before.reverse) := by
  induction before with
  | nil => exact ⟨rfl, rfl⟩
  | cons entry before ih =>
    obtain ⟨c, style⟩ := entry
    rw [List.reverse_cons]
    by_cases operator : style = .operator
    · subst operator
      rw [nestingOf_cons_operator, Openings.ofEntries_concat_operator]
      exact ih.track _ c
    · rw [nestingOf_cons_other operator, Openings.ofEntries_concat_other operator]
      exact ih

namespace Document

variable {p : Place} {s : ScanSetup} {o : ScanOptions}

/-- In a dialect without interpolations the line state of a line that ends in a line break holds
the number of parentheses that are open behind the line, and whether a bracket is open there, as
the punctuation of the text up to there says. -/
theorem scanAll_openings (options : s.options p = .ok o) (plain : o.dialect.Plain)
    (text : List Char) :
    ∃ d r, (ofChars text).scanAll p s = .ok (d, r) ∧ d.text = text ∧
      ∀ line : Nat, line + 1 < d.lineCount → ∃ state : Nat,
        d.lineState line = .ok (.int state) ∧
          ∀ x : Context, ∃ y, LineState.decode (.int state) x = .ok y ∧
            y.parenDepth = (Openings.ofEntries (d.front (line + 1))).parens ∧
            y.inBrackets = (Openings.ofEntries (d.front (line + 1))).inBrackets := by
  obtain ⟨d, r, scanned, same, full⟩ := scannedTo_scanAll options text
  refine ⟨d, r, scanned, same, fun line below => ?_⟩
  obtain ⟨state, stored, restored⟩ := full.restore_line plain (lineStart_lt_succ below)
  refine ⟨state, stored, fun x => ⟨LineState.restore state x, rfl, ?_⟩⟩
  have shows := nestingOf_shows o.keywords (d.upTo line)
  rw [← restored x, upTo, List.reverse_reverse] at shows
  exact ⟨shows.parens, shows.brackets⟩

/-- One of two parentheses is closed again on a line that leaves a bracket open. -/
theorem scanAll_openings_bracket :
    ∃ d r state y, (ofChars ['(', '(', ')', '[', '\n']).scanAll default {} = .ok (d, r) ∧
      d.lineState (0 : Nat) = .ok (.int (state : Nat)) ∧
        LineState.decode (.int state) .initial = .ok y ∧
          y.parenDepth = 1 ∧ y.inBrackets = true := by
  have options : ScanSetup.options default {} = .ok ⟨.standard, true, .builtin⟩ := rfl
  obtain ⟨d, r, scanned, text, openings⟩ :=
    scanAll_openings options (.inl rfl) ['(', '(', ')', '[', '\n']
  have below : 0 + 1 < d.lineCount := by
    rw [lineCount, text]
    decide
  obtain ⟨state, stored, decoded⟩ := openings 0 below
  obtain ⟨y, decodes, parens, brackets⟩ := decoded .initial
  obtain ⟨-, entries⟩ := upTo_first options scanned (n := 5) (by decide) (by decide)
  have shown : Openings.ofEntries (d.front (0 + 1)) = ⟨1, true⟩ := by
    rw [← List.reverse_reverse (d.front (0 + 1)), ← upTo, entries]
    decide +kernel
  rw [shown] at parens brackets
  exact ⟨d, r, state, y, scanned, stored, decodes, parens, brackets⟩

end Document

end CssHighlight
