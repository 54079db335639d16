import CssHighlight.Proofs.Folding
import CssHighlight.Proofs.Tracking

/-!
# Stored depths

The line state behind a line holds the depths of a counter that reads the styles alone: inside
math functions, and inside selector lists. Neither is above the number of parentheses that the
styles show to be open, and both are that number as long as each parenthesis that closes was
counted when it was opened.
-/
namespace CssHighlight

namespace Document

variable {p : Place} {s : ScanSetup} {o : ScanOptions} {d : Document} {line : Nat}

/-- The styled characters up to the end of a line, the last one first. -/
def upTo (d : Document) (line : Nat) : List (Char × Style) :=
  (d.front (line + 1)).reverse

namespace ScannedTo

/-- A line that has a character is finished where the next one starts, or the text ends. -/
theorem finished_line (h : d.ScannedTo o d.text.length)
    (some : d.startOf line < d.startOf (line + 1 : Nat)) :
    finishedLines (d.startOf (line + 1 : Nat)) d.text = line + 1 ∧
      d.ScannedTo o (d.startOf (line + 1 : Nat)) ∧
      Machine.Recorded o (Machine.scanned o (d.startOf (line + 1 : Nat)) d.text) := by
  rcases Nat.lt_or_ge (line + 1) d.lineCount with below | last
  · obtain ⟨member, count⟩ := startOf_line below
    obtain ⟨_, _, -, -, -, -, -, recorded⟩ :=
      Machine.steady_lineStart o member (Nat.zero_lt_of_lt some)
    exact ⟨(finishedLines_lineStart member).trans count,
      h.back member (le_length_of_mem_lineStarts member), recorded⟩
  · -- The last line ends with the text.
    have ended := startOf_end last
    rw [ended] at some ⊢
    refine ⟨?_, h, ?_⟩
    · have bound := finishedLines_le_length (Nat.le_refl d.text.length)
      have reached : line < finishedLines d.text.length d.text := by
        refine lt_finishedLines (Nat.le_refl _) ?_ (Nat.le_of_eq ended)
        exact (Nat.lt_of_lt_of_eq some ended.symm)
      have count : d.lineCount = (lineStarts d.text).length := rfl
      omega
    · have steady := Machine.steady_scanned o d.text.length d.text
      refine steady.ended ?_
      have nonempty : d.text ≠ [] := by
        intro empty
        simp [empty] at some
      rw [List.take_length, List.drop_length, List.head?_reverse,
        List.getLast?_eq_some_getLast nonempty]
      simp [Machine.lastOfLine]

/-- The state of a line is that of the context behind its last character. -/
theorem lineState_line (h : d.ScannedTo o d.text.length)
    (some : d.startOf line < d.startOf (line + 1 : Nat)) :
    d.lineState line = .ok (.int (LineState.pack
      (Machine.scanned o (d.startOf (line + 1 : Nat)) d.text).context)) := by
  obtain ⟨count, back, recorded⟩ := h.finished_line some
  obtain ⟨data, older, lines, state, -⟩ := recorded.data
  have taken := back.lineStates_take
  have length := (Machine.lines_scanned o (d.startOf (line + 1 : Nat)) d.text).1
  rw [count, lines] at taken length
  rw [lineState, itemAt_natCast]
  have found := getElem?_lastLine length taken
  rw [Nat.add_sub_cancel] at found
  rw [found, state]

theorem upTo_line (h : d.ScannedTo o d.text.length)
    (some : d.startOf line < d.startOf (line + 1 : Nat)) :
    d.upTo line =
      (d.text.take (d.startOf (line + 1 : Nat))).reverse.zip
        (Machine.scanned o (d.startOf (line + 1 : Nat)) d.text).latest := by
  obtain ⟨-, back, -⟩ := h.finished_line some
  have styles := back.styles_take
  rw [Machine.styles_eq] at styles
  have sizes : (d.text.take (d.startOf (line + 1 : Nat))).length =
      (d.styles.take (d.startOf (line + 1 : Nat))).length := by
    simp [h.styles]
  rw [upTo, front, List.zip, List.take_zipWith, List.reverse_zipWith sizes, styles,
    List.reverse_reverse]

/-- The nesting that is restored from the state of a line is that of the styles in front of the
next one. -/
theorem restore_line (h : d.ScannedTo o d.text.length) (plain : o.dialect.Plain)
    (some : d.startOf line < d.startOf (line + 1 : Nat)) :
    ∃ state, d.lineState line = .ok (.int (state : Nat)) ∧
      ∀ x, (LineState.restore state x).nesting = nestingOf o.keywords (d.upTo line) := by
  refine ⟨_, h.lineState_line some, fun x => ?_⟩
  rw [h.upTo_line some, ← Machine.nesting_scanned plain]
  -- The counters are within their fields, so that what is stored is what is counted.
  have bounded := (Machine.steady_scanned o (d.startOf (line + 1 : Nat)) d.text).sound.toBounded
  rw [bounded.restore_pack x]
  rfl

/-- The state of a line holds the nesting of the styles in front of the next one. -/
theorem nesting_line (h : d.ScannedTo o d.text.length) (plain : o.dialect.Plain)
    (some : d.startOf line < d.startOf (line + 1 : Nat)) :
    ∃ state, d.lineState line = .ok (.int (state : Nat)) ∧
      (LineState.field state .mathDepth : Int) =
        (nestingOf o.keywords (d.upTo line)).math ∧
      (LineState.field state .selectorDepth : Int) =
        (nestingOf o.keywords (d.upTo line)).selectors := by
  obtain ⟨state, stored, restored⟩ := h.restore_line plain some
  have nesting := restored .initial
  exact ⟨state, stored, congrArg Nesting.math nesting, congrArg Nesting.selectors nesting⟩

end ScannedTo

/-- A text of one line, which ends in a line break. -/
theorem upTo_first (options : s.options p = .ok o) {text : List Char} {r : ScanResult}
    (scanned : (ofChars text).scanAll p s = .ok (d, r)) {n : Nat}
    (starts : lineStarts text = [0, n]) (positive : 0 < n) :
    d.startOf (0 : Nat) < d.startOf (0 + 1 : Nat) ∧
      d.upTo 0 = (text.take n).reverse.zip (Machine.scanned o n text).latest := by
  obtain ⟨rfl, full⟩ := scannedTo_of_scanAll options scanned
  have here : d.startOf (0 : Nat) = 0 := by
    rw [startOf, lineStart, starts]
    rfl
  have next : d.startOf (0 + 1 : Nat) = n := by
    rw [startOf, lineStart, starts]
    rfl
  have some : d.startOf (0 : Nat) < d.startOf (0 + 1 : Nat) := by
    rw [here, next]
    exact positive
  refine ⟨some, ?_⟩
  rw [full.upTo_line some, next]

/-- In a dialect without interpolations the depth inside selector lists that is stored for a line
is that of a counter which every parenthesis that closes takes down. It is not above the number of
parentheses of selector lists that are open behind the line, and it is that number when no other
parenthesis closes inside one. -/
theorem scanAll_selectorDepth (options : s.options p = .ok o) (plain : o.dialect.Plain)
    (text : List Char) :
    ∃ d r, (ofChars text).scanAll p s = .ok (d, r) ∧ d.text = text ∧
      ∀ line : Nat, d.startOf line < d.startOf (line + 1 : Nat) → ∃ state : Nat,
        d.lineState line = .ok (.int state) ∧
          (LineState.field state .selectorDepth : Int) =
            (nestingOf o.keywords (d.upTo line)).selectors ∧
          LineState.field state .selectorDepth ≤
            (openParens o.keywords (d.upTo line)).count .selectors ∧
          (Shallow 255 o.keywords (d.upTo line) → OthersOutside o.keywords (d.upTo line) →
            LineState.field state .selectorDepth =
              (openParens o.keywords (d.upTo line)).count .selectors) := by
  obtain ⟨d, r, scanned, same, full⟩ := scannedTo_scanAll options text
  refine ⟨d, r, scanned, same, fun line some => ?_⟩
  obtain ⟨state, stored, -, counter⟩ := full.nesting_line plain some
  refine ⟨state, stored, counter, ?_, fun shallow outside => ?_⟩
  · have below := (below_nestingOf o.keywords (d.upTo line)).selectors.2
    omega
  · have equal := selectors_nestingOf shallow outside
    omega

/-- The parenthesis of a selector list that stays open is counted. -/
theorem scanAll_selectorDepth_list :
    let keywords : KeywordSet :=
      { (default : KeywordSet) with pseudoClass := ⟨#["is("], List.pairwise_singleton _ _⟩ }
    ∃ d r state, (ofChars [':', 'i', 's', '(', '\n']).scanAll default { keywords := keywords } =
        .ok (d, r) ∧
      d.lineState (0 : Nat) = .ok (.int (state : Nat)) ∧
        LineState.field state .selectorDepth = 1 := by
  intro keywords
  have options : ScanSetup.options default { keywords := keywords } =
      .ok ⟨.standard, true, keywords⟩ := rfl
  obtain ⟨d, r, scanned, text, depths⟩ :=
    scanAll_selectorDepth options (.inl rfl) [':', 'i', 's', '(', '\n']
  obtain ⟨some, entries⟩ := upTo_first options scanned (n := 5) (by decide) (by decide)
  obtain ⟨state, stored, counter, -⟩ := depths 0 some
  rw [entries] at counter
  refine ⟨d, r, state, scanned, stored, Int.ofNat_inj.mp (counter.trans ?_)⟩
  decide +kernel

/-- A parenthesis inside a selector list takes the depth down when it closes. -/
theorem scanAll_selectorDepth_ne :
    let keywords : KeywordSet :=
      { (default : KeywordSet) with pseudoClass := ⟨#["is("], List.pairwise_singleton _ _⟩ }
    ∃ d r state, (ofChars [':', 'i', 's', '(', 'a', '(', ')', '\n']).scanAll default
        { keywords := keywords } = .ok (d, r) ∧
      Shallow 255 keywords (d.upTo 0) ∧
      d.lineState (0 : Nat) = .ok (.int (state : Nat)) ∧
        LineState.field state .selectorDepth = 0 ∧
        (openParens keywords (d.upTo 0)).count .selectors = 1 := by
  intro keywords
  have options : ScanSetup.options default { keywords := keywords } =
      .ok ⟨.standard, true, keywords⟩ := rfl
  obtain ⟨d, r, scanned, text, full⟩ :=
    scannedTo_scanAll options [':', 'i', 's', '(', 'a', '(', ')', '\n']
  obtain ⟨some, entries⟩ := upTo_first options scanned (n := 8) (by decide) (by decide)
  obtain ⟨state, stored, -, counter⟩ := full.nesting_line (.inl rfl) some
  rw [entries] at counter
  refine ⟨d, r, state, scanned, ?_, stored,
    Int.ofNat_inj.mp (counter.trans (by decide +kernel)), ?_⟩ <;> rw [entries]
  · exact shallow_of_length_le (by decide +kernel)
  · decide +kernel

/-- In a dialect without interpolations the depth inside math functions that is stored for a line
is that of a counter which every parenthesis that closes takes down, and which the one of a bare
address does not raise. It is not above the number of parentheses that are open in math functions
behind the line, and it is that number when no bare address opens inside one. -/
theorem scanAll_mathDepth (options : s.options p = .ok o) (plain : o.dialect.Plain)
    (text : List Char) :
    ∃ d r, (ofChars text).scanAll p s = .ok (d, r) ∧ d.text = text ∧
      ∀ line : Nat, d.startOf line < d.startOf (line + 1 : Nat) → ∃ state : Nat,
        d.lineState line = .ok (.int state) ∧
          (LineState.field state .mathDepth : Int) =
            (nestingOf o.keywords (d.upTo line)).math ∧
          LineState.field state .mathDepth ≤
            insideMath (openParens o.keywords (d.upTo line)) ∧
          (Shallow 63 o.keywords (d.upTo line) → AddressesOutside o.keywords (d.upTo line) →
            LineState.field state .mathDepth =
              insideMath (openParens o.keywords (d.upTo line))) := by
  obtain ⟨d, r, scanned, same, full⟩ := scannedTo_scanAll options text
  refine ⟨d, r, scanned, same, fun line some => ?_⟩
  obtain ⟨state, stored, counter, -⟩ := full.nesting_line plain some
  refine ⟨state, stored, counter, ?_, fun shallow outside => ?_⟩
  · have below := (below_nestingOf o.keywords (d.upTo line)).math.2
    omega
  · have equal := math_nestingOf shallow outside
    omega

/-- The parenthesis of a math function that stays open is counted, and so is one inside it. -/
theorem scanAll_mathDepth_nested :
    let keywords : KeywordSet :=
      { (default : KeywordSet) with mathFunction := ⟨#["abs("], List.pairwise_singleton _ _⟩ }
    ∃ d r state, (ofChars ['a', 'b', 's', '(', '(', '\n']).scanAll default
        { keywords := keywords } = .ok (d, r) ∧
      d.lineState (0 : Nat) = .ok (.int (state : Nat)) ∧
        LineState.field state .mathDepth = 2 := by
  intro keywords
  have options : ScanSetup.options default { keywords := keywords } =
      .ok ⟨.standard, true, keywords⟩ := rfl
  obtain ⟨d, r, scanned, text, depths⟩ :=
    scanAll_mathDepth options (.inl rfl) ['a', 'b', 's', '(', '(', '\n']
  obtain ⟨some, entries⟩ := upTo_first options scanned (n := 6) (by decide) (by decide)
  obtain ⟨state, stored, counter, -⟩ := depths 0 some
  rw [entries] at counter
  refine ⟨d, r, state, scanned, stored, Int.ofNat_inj.mp (counter.trans ?_)⟩
  decide +kernel

/-- The parenthesis of a bare address takes the depth down when it closes, although it did not take
it up. -/
theorem scanAll_mathDepth_ne :
    let keywords : KeywordSet :=
      { (default : KeywordSet) with mathFunction := ⟨#["abs("], List.pairwise_singleton _ _⟩ }
    ∃ d r state, (ofChars ['a', 'b', 's', '(', 'u', 'r', 'l', '(', 'a', ')', '\n']).scanAll default
        { keywords := keywords } = .ok (d, r) ∧
      Shallow 63 keywords (d.upTo 0) ∧
      d.lineState (0 : Nat) = .ok (.int (state : Nat)) ∧
        LineState.field state .mathDepth = 0 ∧
        insideMath (openParens keywords (d.upTo 0)) = 1 := by
  intro keywords
  have options : ScanSetup.options default { keywords := keywords } =
      .ok ⟨.standard, true, keywords⟩ := rfl
  obtain ⟨d, r, scanned, text, full⟩ :=
    scannedTo_scanAll options ['a', 'b', 's', '(', 'u', 'r', 'l', '(', 'a', ')', '\n']
  obtain ⟨some, entries⟩ := upTo_first options scanned (n := 11) (by decide) (by decide)
  obtain ⟨state, stored, counter, -⟩ := full.nesting_line (.inl rfl) some
  rw [entries] at counter
  refine ⟨d, r, state, scanned, ?_, stored,
    Int.ofNat_inj.mp (counter.trans (by decide +kernel)), ?_⟩ <;> rw [entries]
  · exact shallow_of_length_le (by decide +kernel)
  · decide +kernel

end Document

end CssHighlight
