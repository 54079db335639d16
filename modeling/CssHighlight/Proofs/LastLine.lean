import CssHighlight.Proofs.Editing
import CssHighlight.Proofs.Replacing

/-!
# The empty last line

A scan writes the data of a line when it passes the line's last character, so it never writes that
of a last line without characters. There an edit decides alone what the line has afterwards: the
data of a line that was never scanned, unless the edit cuts the text off where a line with
characters started, which then leaves its data behind.
-/
namespace CssHighlight

/-- The last line of the text is empty: so is the text, or it ends in a line break. -/
def EndsInBreak (text : List Char) : Prop :=
  text.getLast?.all isLineBreak = true

instance (text : List Char) : Decidable (EndsInBreak text) :=
  inferInstanceAs (Decidable (_ = _))

/-- A line starts at the end of such a text. -/
theorem EndsInBreak.length_mem {text : List Char} (h : EndsInBreak text) :
    text.length ∈ lineStarts text := by
  rcases List.eq_nil_or_concat text with rfl | ⟨before, b, cut⟩
  · exact List.mem_cons_self
  · rw [List.concat_eq_append] at cut
    have breaks : isLineBreak b = true := by simpa [EndsInBreak, cut] using h
    have ends : endsLine b [] = true := by simpa [endsLine, isLineBreak] using breaks
    exact mem_lineStarts_iff.mpr (.inr ⟨before, b, [], cut, by simp [cut], ends⟩)

/-- Every line but the last one has ended where such a text ends. -/
theorem EndsInBreak.finishedLines {text : List Char} (h : EndsInBreak text) :
    finishedLines text.length text = (lineStarts text).length - 1 := by
  rw [finishedLines_lineStart h.length_mem, length_lineStarts, Nat.add_sub_cancel]

/-- Where a front of a text ends in a line break, the text has a line start, unless the front has a
line more there than the text has. -/
theorem EndsInBreak.mem_lineStarts_iff_take {n : Nat} {text : List Char} (le : n ≤ text.length)
    (ends : EndsInBreak (text.take n)) :
    n ∈ lineStarts text ↔ lineEnds n (text.take n) ≤ lineEnds n text := by
  rcases List.eq_nil_or_concat (text.take n) with empty | ⟨before, b, taken⟩
  · obtain rfl : n = 0 := by
      have size := congrArg List.length empty
      rwa [List.length_take_of_le le] at size
    exact iff_of_true List.mem_cons_self (Nat.le_refl 0)
  · rw [List.concat_eq_append] at taken
    obtain rfl : n = before.length + 1 := by
      have size := congrArg List.length taken
      rw [List.length_take_of_le le] at size
      simpa using size
    obtain ⟨rest, rfl⟩ : ∃ rest, text = before ++ b :: rest :=
      ⟨_, by rw [List.append_cons, ← taken, List.take_append_drop]⟩
    have breaks : isLineBreak b = true := by simpa [EndsInBreak, taken] using ends
    have last : endsLine b [] = true := by simpa [endsLine, isLineBreak] using breaks
    have front : lineEnds before.length (before ++ [b]) =
        lineEnds before.length (before ++ b :: rest) :=
      lineEnds_eq_of_take_eq (by rw [taken, List.take_of_length_le (by simp)])
    -- Both say that the line break is one in the text as well.
    rw [taken, lineEnds_add, lineEnds_add, front, List.drop_left, List.drop_left, lineEnds_cons,
      lineEnds_cons, if_pos last]
    cases ended : endsLine b rest with
    | true =>
      exact iff_of_true (mem_lineStarts_iff.mpr (.inr ⟨before, b, rest, rfl, rfl, ended⟩))
        (Nat.le_refl _)
    | false =>
      refine iff_of_false ?_ (Nat.not_succ_le_self _)
      intro member
      rcases mem_lineStarts_iff.mp member with zero | ⟨before', c, rest', cut, size, ends'⟩
      · exact absurd zero (Nat.succ_ne_zero _)
      · obtain ⟨-, same⟩ := List.append_inj cut (Nat.succ.inj size)
        obtain ⟨rfl, rfl⟩ := List.cons.inj same
        rw [ended] at ends'
        exact Bool.false_ne_true ends'

namespace Edit

/-- The edit takes away what stands from the start of a line with characters on. -/
structure CutsOff (e : Edit) (text : List Char) : Prop where
  inserted : e.inserted = []
  stop : e.stop = text.length
  start : e.start ∈ lineStarts text
  some : e.start < text.length

variable {e : Edit} {text : List Char}

theorem getLast?_apply (some : e.stop < text.length) :
    (e.apply text).getLast? = text.getLast? := by
  have nonempty : text ≠ [] := List.ne_nil_of_length_pos (by omega)
  rw [apply, List.getLast?_append, List.getLast?_drop, if_neg (by omega),
    List.getLast?_eq_some_getLast nonempty, Option.some_or]

/-- The empty last line of the edited text is a line in front of the edit only where the edit cuts
the text off at the start of a line. -/
theorem Fits.front_iff (fits : e.Fits text) (ends : EndsInBreak (e.apply text)) :
    (lineStarts (e.apply text)).length - 1 ≤
        min (lineEnds e.start text) (lineEnds e.start (e.apply text)) ↔
      e.inserted = [] ∧ e.stop = text.length ∧ e.start ∈ lineStarts text := by
  have ordered := fits.ordered
  have inside := fits.inside
  have length := fits.length_apply
  have le := Nat.le_trans ordered inside
  have cut (none : e.inserted = []) (stop : e.stop = text.length) :
      e.apply text = text.take e.start := by
    rw [apply, none, stop, List.drop_length, List.append_nil, List.append_nil]
  have size : (text.take e.start).length = e.start := List.length_take_of_le le
  rw [length_lineStarts, Nat.add_sub_cancel]
  constructor
  · intro front
    have last := getElem?_lineEnds ends.length_mem
    have reach : (e.apply text).length ≤ e.start :=
      (le_lineEnds_iff last).mp (Nat.le_trans front (Nat.min_le_right _ _))
    have none : e.inserted = [] := List.eq_nil_of_length_eq_zero (by omega)
    have stop : e.stop = text.length := by omega
    rw [cut none stop] at ends front
    rw [size] at front
    exact ⟨none, stop,
      (ends.mem_lineStarts_iff_take le).mpr (Nat.le_trans front (Nat.min_le_left _ _))⟩
  · rintro ⟨none, stop, start⟩
    rw [cut none stop] at ends ⊢
    rw [size]
    exact Nat.le_min.mpr ⟨(ends.mem_lineStarts_iff_take le).mp start, Nat.le_refl _⟩

end Edit

namespace Document

variable {o : ScanOptions}

theorem SameLine.trans {d d' d'' : Document} {line line' line'' : Nat}
    (h : SameLine d line d' line') (h' : SameLine d' line' d'' line'') :
    SameLine d line d'' line'' :=
  ⟨h.foldLevel.trans h'.foldLevel, h.lineState.trans h'.lineState⟩

theorem SameLine.fresh {d d' : Document} {line line' : Nat} (h : SameLine d line d' line')
    (fresh : FreshLine d' line') : FreshLine d line :=
  ⟨h.foldLevel.trans fresh.foldLevel, h.lineState.trans fresh.lineState⟩

theorem sameLine_of_drop {d d' : Document} {count line : Nat}
    (levels : d.foldLevels.drop count = d'.foldLevels.drop count)
    (states : d.lineStates.drop count = d'.lineStates.drop count) (behind : count ≤ line) :
    SameLine d line d' line := by
  have read {α : Type} {data data' : List α} (same : data.drop count = data'.drop count) :
      itemAt data line = itemAt data' line := by
    have item := congrArg (·[line - count]?) same
    simp only [List.getElem?_drop, Nat.add_sub_cancel' behind] at item
    exact itemAt_eq_iff.mpr item
  exact ⟨read levels, read states⟩

variable {p : Place} {s : ScanSetup}

/-- A scan of the whole text leaves an empty last line as it was. -/
theorem scanAll_lastLine (options : s.options p = .ok o) (text : List Char) :
    ∃ d r, (ofChars text).scanAll p s = .ok (d, r) ∧ d.text = text ∧
      d.ScannedTo o d.text.length ∧ (EndsInBreak text → FreshLine d (d.lineCount - 1)) := by
  obtain ⟨d, r, scanned, advances, -⟩ :=
    (scannedTo_ofChars o text).scan options List.mem_cons_self (Nat.le_of_eq (Nat.zero_add _))
  rw [Nat.zero_add] at advances
  have text_eq : d.text = text := advances.text
  refine ⟨d, r, scanned, text_eq, text_eq.symm ▸ advances.toScannedTo, ?_⟩
  intro ends
  have last : d.lineCount - 1 = finishedLines text.length text := by
    rw [ends.finishedLines, lineCount, text_eq]
  have same : SameLine d (d.lineCount - 1) (ofChars text) (d.lineCount - 1) :=
    sameLine_of_drop advances.foldLevels_drop advances.lineStates_drop (Nat.le_of_eq last.symm)
  refine same.fresh (freshLine_iff.mpr ?_)
  have inside : d.lineCount - 1 < (lineStarts text).length := by
    have some : 0 < (lineStarts text).length := Nat.zero_lt_of_lt (lineEnds_lt_length 0 text)
    rw [lineCount, text_eq]
    omega
  constructor <;>
    simp only [ofChars, List.getElem?_map, List.getElem?_eq_getElem inside, Option.map_some]

/-- Folding leaves a level with every line that is finished. -/
theorem ScannedTo.foldLevel_isSome {d : Document} {n : Nat} (h : d.ScannedTo o n)
    (fold : o.fold = true) {line : Nat} (finished : line < finishedLines n d.text) :
    d.foldLevel line ≠ .ok none := by
  have read := h.foldLevels_take fold
  obtain ⟨count, folds⟩ := Machine.lines_scanned o n d.text
  have inside : line < (Machine.scanned o n d.text).lines.reverse.length := by
    rwa [List.length_reverse, count]
  have level : d.foldLevels[line]? =
      some ((Machine.scanned o n d.text).lines.reverse[line].fold.map Int.ofNat) := by
    rw [← List.getElem?_take_of_lt finished, read, List.getElem?_map,
      List.getElem?_eq_getElem inside]
    rfl
  obtain ⟨level', found⟩ := Option.isSome_iff_exists.mp
    ((folds _ (List.mem_reverse.mp (List.getElem_mem inside))).trans fold)
  rw [foldLevel, itemAt_natCast, level, found]
  simp

/-- After an edit the empty last line is as if it was never scanned, or it has the data of the line
at whose start the edit cuts the text off. -/
theorem Replaced.lastLine {d d' : Document} {e : Edit} (h : Replaced d e d')
    (fits : e.Fits d.text) (ends : EndsInBreak (e.apply d.text))
    (empty : EndsInBreak d.text → FreshLine d (d.lineCount - 1)) :
    (¬e.CutsOff d.text → FreshLine d' (d'.lineCount - 1)) ∧
      (e.CutsOff d.text → SameLine d' (d'.lineCount - 1) d (d'.lineCount - 1)) := by
  have text : d'.text = e.apply d.text := h.text
  have front := fits.front_iff ends
  rw [← text] at front
  have lines (line : Nat) : (line : Int) ≤ min (d.lineAt e.start) (d'.lineAt e.start) ↔
      line ≤ min (lineEnds e.start d.text) (lineEnds e.start d'.text) := by
    rw [lineAt_eq, lineAt_eq]
    omega
  refine ⟨fun notCut => ?_, fun cut =>
    h.front _ ((lines _).mpr (front.mpr ⟨cut.inserted, cut.stop, cut.start⟩))⟩
  by_cases inFront : d'.lineCount - 1 ≤ min (lineEnds e.start d.text) (lineEnds e.start d'.text)
  -- The edit takes nothing away, so the last line was empty before.
  · obtain ⟨inserted, stop, start⟩ := front.mp inFront
    have atEnd : e.start = d.text.length := by
      have le := le_length_of_mem_lineStarts start
      exact Nat.le_antisymm le
        (Nat.le_of_not_lt fun before => notCut ⟨inserted, stop, start, before⟩)
    have same : d'.text = d.text := by
      rw [text, Edit.apply, inserted, atEnd, stop, List.take_length, List.drop_length,
        List.append_nil, List.append_nil]
    have count : d'.lineCount = d.lineCount := by rw [lineCount, lineCount, same]
    have kept := h.front _ ((lines _).mpr inFront)
    rw [count] at kept ⊢
    exact kept.fresh (empty (same ▸ text ▸ ends))
  · rcases Nat.eq_zero_or_pos (d.linesBehind e.stop) with none | some
    · refine h.between _ ?_ ?_
      · exact Int.lt_of_not_ge fun le => inFront ((lines _).mp le)
      · have some : 0 < d'.lineCount := Nat.zero_lt_of_lt (lineEnds_lt_length 0 d'.text)
        omega
    -- A line starts behind the edit, so the last line has moved, and was empty before.
    · have behind : e.stop < d.text.length := by
        rw [linesBehind_eq, lineCount_eq] at some
        refine Nat.lt_of_not_le ?_
        intro le
        rw [Nat.le_antisymm fits.inside le] at some
        omega
      have moved := h.behind 0 some
      rw [Nat.sub_zero, Nat.sub_zero] at moved
      refine moved.fresh (empty ?_)
      rwa [EndsInBreak, Edit.getLast?_apply behind] at ends

/-- After an edit and the scan behind it, an empty last line has the data that a scan of the edited
text leaves it, which is none, unless the edit cuts the text off where a line with characters
starts. Then it has the data that this line had, and with folding that is never none. -/
theorem edit_lastLine (options : s.options p = .ok o) (text : List Char) {e : Edit}
    (fits : e.Fits text) (ends : EndsInBreak (e.apply text)) :
    ∃ d r d' f r', (ofChars text).scanAll p s = .ok (d, r) ∧ d.edit p s e = some d' ∧
      (ofChars (e.apply text)).scanAll p s = .ok (f, r') ∧ d'.text = f.text ∧
      FreshLine f (f.lineCount - 1) ∧
      (¬e.CutsOff text → FreshLine d' (d'.lineCount - 1)) ∧
      (e.CutsOff text → SameLine d' (d'.lineCount - 1) d (d'.lineCount - 1) ∧
        (o.fold = true → ¬FreshLine d' (d'.lineCount - 1))) := by
  obtain ⟨d, r, scanned, rfl, full, empty⟩ := scanAll_lastLine options text
  obtain ⟨f, r', fresh, text, -, none⟩ := scanAll_lastLine options (e.apply d.text)
  have edited := full.toRegular.edited fits
  obtain ⟨member, -⟩ := e.restart_spec d.text
  have reach := Nat.add_sub_cancel' (le_length_of_mem_lineStarts member)
  obtain ⟨context, restored⟩ :=
    edited.contextAt member ((d.edited e).styleBefore (e.restart d.text))
  -- The scan behind the edit leaves the last line as the edit has left it.
  have last : lineEnds (e.restart d.text) (e.apply d.text) + finishedLines
      ((e.apply d.text).length - e.restart d.text) ((e.apply d.text).drop (e.restart d.text)) =
        (d.edited e).lineCount - 1 := by
    rw [← finishedLines_lineStart member, ← finishedLines_add, reach, ends.finishedLines]
    rfl
  have left := edited.toSized.sameLine_scanFrom ((d.edited e).styleBefore (e.restart d.text)) o
    context (.inr (Nat.le_of_eq last))
  obtain ⟨cleared, kept⟩ := (full.toSized.replaced_edited fits).lastLine fits ends empty
  refine ⟨d, r, _, f, r', scanned, edit_eq options fits restored, fresh, text.symm, none ends,
    fun notCut => left.fresh (cleared notCut), fun cut => ?_⟩
  have same := left.trans (kept cut)
  have front := (fits.front_iff ends).mpr ⟨cut.inserted, cut.stop, cut.start⟩
  have finished : (d.edited e).lineCount - 1 < finishedLines d.text.length d.text :=
    Nat.lt_of_le_of_lt (Nat.le_trans front (Nat.min_le_left _ _))
      (lineEnds_lt_finishedLines cut.some)
  exact ⟨same, fun fold fresh =>
    full.foldLevel_isSome fold finished (same.foldLevel.symm.trans fresh.foldLevel)⟩

/-- A text that is cut off at the start of its last line, and one where the same characters are
replaced by the line break above. -/
theorem edit_lastLine_cut :
    let text := ['(', '\n', 'b', '{']
    let cut : Edit := ⟨2, 4, []⟩
    let replaced : Edit := ⟨1, 4, ['\n']⟩
    (cut.CutsOff text ∧ EndsInBreak (cut.apply text) ∧
      ∃ d r d', (ofChars text).scanAll default {} = .ok (d, r) ∧
        d.edit default {} cut = some d' ∧
        SameLine d' (d'.lineCount - 1) d (d'.lineCount - 1) ∧ ¬FreshLine d' (d'.lineCount - 1)) ∧
      ¬replaced.CutsOff text ∧ EndsInBreak (replaced.apply text) ∧
      ∃ d r d', (ofChars text).scanAll default {} = .ok (d, r) ∧
        d.edit default {} replaced = some d' ∧ FreshLine d' (d'.lineCount - 1) := by
  intro text cut replaced
  have options : ScanSetup.options default {} = .ok ⟨.standard, true, .builtin⟩ := rfl
  have cuts : cut.CutsOff text := ⟨rfl, rfl, by decide, by decide⟩
  have keeps : ¬replaced.CutsOff text := fun cuts => List.cons_ne_nil _ _ cuts.inserted
  obtain ⟨d, r, d', -, -, scanned, edited, -, -, -, -, kept⟩ :=
    edit_lastLine options text (e := cut) ⟨by decide, by decide⟩ (by decide)
  obtain ⟨same, stale⟩ := kept cuts
  obtain ⟨d₂, r₂, d₂', -, -, scanned₂, edited₂, -, -, -, cleared, -⟩ :=
    edit_lastLine options text (e := replaced) ⟨by decide, by decide⟩ (by decide)
  exact ⟨⟨cuts, by decide, d, r, d', scanned, edited, same, stale rfl⟩,
    keeps, by decide, d₂, r₂, d₂', scanned₂, edited₂, cleared keeps⟩

/-- Where the whole text is taken away, the line that is left keeps the fold level and the open
parenthesis of a line that is gone. -/
theorem edit_lastLine_ne :
    ∃ d r d' f r', (ofChars ['(']).scanAll default {} = .ok (d, r) ∧
      d.edit default {} ⟨0, 1, []⟩ = some d' ∧ (ofChars []).scanAll default {} = .ok (f, r') ∧
      d'.text = f.text ∧ FreshLine f 0 ∧
      d'.foldLevel 0 = .ok (some 0x4012400) ∧ d'.lineState 0 = .ok (.int 256) :=
  ⟨_, _, _, _, _, rfl, rfl, rfl, rfl, ⟨rfl, rfl⟩, rfl, rfl⟩

end Document

end CssHighlight
