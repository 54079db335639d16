import CssHighlight.Proofs.Edits
import CssHighlight.Proofs.Restart
import CssHighlight.Proofs.SharedPrefix

/-!
# Editing and rescanning

After an edit only the text from the start of its line on is scanned again, and the lines above
keep what they had. So the document is as a scan of the edited text leaves it where that scan does
nothing else to the lines above, which is so unless a name or a parenthesis at the end of them
looks for the next solid character. The data of a last line without characters is written by no
scan, and is left out here.
-/
namespace CssHighlight

namespace Edit

/-- The first solid character from the edited line on is the same before and after the edit. -/
def KeepsSolid (e : Edit) (text : List Char) : Prop :=
  Machine.nextSolid (text.drop (e.restart text)) =
    Machine.nextSolid ((e.apply text).drop (e.restart text))

/-- The first solid characters from the edited line on, before and after the edit, are the same to
the name or the parenthesis above that looks for them, if there is one. -/
def KeepsMarks (e : Edit) (text : List Char) : Prop :=
  SameMark (marksBehind (text.take (e.restart text)))
    (Machine.nextSolid (text.drop (e.restart text)))
    (Machine.nextSolid ((e.apply text).drop (e.restart text)))

instance (e : Edit) (text : List Char) : Decidable (e.KeepsSolid text) :=
  inferInstanceAs (Decidable (_ = _))

instance (e : Edit) (text : List Char) : Decidable (e.KeepsMarks text) :=
  inferInstanceAs (Decidable (SameMark _ _ _))

theorem KeepsSolid.keepsMarks {e : Edit} {text : List Char} (h : e.KeepsSolid text) :
    e.KeepsMarks text := fun mark _ => by rw [h]

variable {e : Edit} {text : List Char}

/-- A scan of the text before the edit has done above the edited line what a scan of the edited
text does there. -/
theorem scanned_restart (o : ScanOptions) (fits : e.Fits text) (marks : e.KeepsMarks text) :
    (∃ styles, (Machine.scanned o text.length text).latest =
        styles ++ (Machine.scanned o (e.restart text) (e.apply text)).latest) ∧
      ∃ lines, (Machine.scanned o text.length text).lines =
        lines ++ (Machine.scanned o (e.restart text) (e.apply text)).lines := by
  obtain ⟨member, below, -⟩ := e.restart_spec text
  rcases mem_lineStarts_iff.mp member with front | ⟨before, b, rest, cut, at_, ends⟩
  -- Nothing stands above the first line.
  · rw [front]
    exact ⟨⟨_, (List.append_nil _).symm⟩, ⟨_, (List.append_nil _).symm⟩⟩
  -- Above any other line both texts have the same front, which ends with a line break.
  · have shared : text.take (e.restart text) = before ++ [b] := by
      rw [← fits.take_apply below, cut, at_]
      simp [List.take_append, List.take_of_length_le]
    have behind : (e.apply text).drop (e.restart text) = rest := by
      rw [cut, at_]
      simp
    have old : text = before ++ b :: text.drop (e.restart text) := by
      rw [List.append_cons, ← shared, List.take_append_drop]
    rw [KeepsMarks, shared, behind] at marks
    have scanned := Machine.scanned_shared o ends marks
    rwa [← old, ← cut, ← at_] at scanned

end Edit

namespace Document

variable {o : ScanOptions}

/-- Documents that are scanned equally far have the same above that place. -/
theorem ScannedTo.sameAbove {d d' : Document} {n : Nat} (h : d.ScannedTo o n)
    (h' : d'.ScannedTo o n) (text : d.text = d'.text) :
    SameAbove n (finishedLines n d.text) d d' := by
  have styles := h'.styles_take
  have lineStates := h'.lineStates_take
  have foldLevels := h'.foldLevels_take
  rw [← text] at styles lineStates foldLevels
  refine ⟨h.styles_take.trans styles.symm, ?_, h.lineStates_take.trans lineStates.symm⟩
  cases fold : o.fold with
  | true => exact (h.foldLevels_take fold).trans (foldLevels fold).symm
  | false => rw [h.foldLevels_eq h'.toRegular text fold]

/-- A document that has above a line what a scanned one has there is scanned up to that line. -/
theorem ScannedTo.of_sameAbove {d f : Document} {start : Nat} (h : f.ScannedTo o start)
    (member : start ∈ lineStarts f.text) (text : d.text = f.text) (regular : d.Regular o)
    (same : SameAbove start (lineEnds start f.text) d f) : d.ScannedTo o start := by
  have lineStates := h.lineStates_take
  have foldLevels := h.foldLevels_take
  rw [finishedLines_lineStart member] at lineStates foldLevels
  exact { regular with
    fits := text ▸ h.fits
    styles_take := by rw [same.styles, h.styles_take, text]
    lineStates_take := by rw [text, finishedLines_lineStart member, same.lineStates, lineStates]
    foldLevels_take := by
      intro fold
      rw [text, finishedLines_lineStart member, same.foldLevels, foldLevels fold] }

/-- Scans of a text before and after an edit leave the same above the edited line, where the marks
that are looked for behind it stay. -/
theorem ScannedTo.sameAbove_of_keepsMarks {d f : Document} {e : Edit}
    (h : d.ScannedTo o d.text.length) (h' : f.ScannedTo o f.text.length)
    (text : f.text = e.apply d.text) (fits : e.Fits d.text) (marks : e.KeepsMarks d.text) :
    SameAbove (e.restart d.text) (e.line d.text) d f := by
  obtain ⟨member, -⟩ := e.restart_spec d.text
  obtain ⟨above, front, -⟩ := d.linesKept_bounds fits
  obtain ⟨⟨styles, latest⟩, lines, recorded⟩ := e.scanned_restart o fits marks
  rw [← text] at member latest recorded
  have fresh := h'.back member (le_length_of_mem_lineStarts member)
  have line : e.line d.text = finishedLines (e.restart d.text) f.text := by
    rw [finishedLines_lineStart member, text, e.line_eq]
  have kept {α : Type} {data data' : List α} {read : LineData → α}
      (taken : data.take (finishedLines d.text.length d.text) =
        (Machine.scanned o d.text.length d.text).lines.reverse.map read)
      (taken' : data'.take (finishedLines (e.restart d.text) f.text) =
        (Machine.scanned o (e.restart d.text) f.text).lines.reverse.map read) :
      data.take (e.line d.text) = data'.take (e.line d.text) := by
    rw [← (Machine.lines_scanned o _ d.text).1, recorded] at taken
    rw [line, taken', ← (Machine.lines_scanned o _ f.text).1]
    exact take_reverse_append taken
  refine ⟨?_, ?_, kept h.lineStates_take fresh.lineStates_take⟩
  · have length := Machine.length_latest_scanned (o := o) (Nat.le_refl d.text.length)
    have reach := Machine.length_latest_scanned (o := o) fresh.fits
    have taken := h.styles_take
    rw [Machine.styles_eq, latest, ← length, latest, ← List.map_id (List.reverse _)] at taken
    have oldest := take_reverse_append taken
    rw [reach, List.map_id, ← Machine.styles_eq] at oldest
    exact oldest.trans fresh.styles_take.symm
  · cases fold : o.fold with
    | true => exact kept (h.foldLevels_take fold) (fresh.foldLevels_take fold)
    | false =>
      have inside : e.line d.text ≤ f.lineCount := by
        rw [line]
        exact finishedLines_le_length fresh.fits
      rw [h.toRegular.foldLevels_take fold (Nat.le_trans above front),
        h'.toRegular.foldLevels_take fold inside]

/-! ### An edit with the scan behind it -/

/-- Edits the document and scans it again from the edited line on. -/
def edit (p : Place) (s : ScanSetup) (d : Document) (e : Edit) : Option Document :=
  match d.replace e.start e.stop e.inserted with
  | .error _ => none
  | .ok edited => (edited.rescan p s e.start).toOption.map Prod.fst

variable {p : Place} {s : ScanSetup}

theorem rescan_eq (options : s.options p = .ok o) {d : Document} {position start : Nat}
    (inside : position ≤ d.text.length) (found : d.startOf (d.lineAt position) = start)
    (le : start ≤ d.text.length) {context : Context}
    (restored : d.contextAt start (d.styleBefore start) = .ok context) :
    d.rescan p s position =
      .ok (d.scanFrom start (d.text.length - start) (d.styleBefore start) o context) := by
  have range : (0 : Int) ≤ position ∧ (position : Int) ≤ d.length := by
    simp only [Document.length]
    omega
  have length : (d.length : Int) - start = (d.text.length - start : Nat) := by
    simp only [Document.length]
    omega
  rw [Document.rescan, if_pos range, ← scan_eq options d (Nat.le_of_eq (Nat.add_sub_cancel' le))
    restored]
  simp only [Document.restartPoint, Int.toNat_natCast, found, ← styleBefore_eq_getD, length]

theorem edit_eq (options : s.options p = .ok o) {d : Document} {e : Edit} (fits : e.Fits d.text)
    {context : Context} (restored : (d.edited e).contextAt (e.restart d.text)
      ((d.edited e).styleBefore (e.restart d.text)) = .ok context) :
    d.edit p s e = some ((d.edited e).scanFrom (e.restart d.text)
      ((e.apply d.text).length - e.restart d.text) ((d.edited e).styleBefore (e.restart d.text)) o
      context).1 := by
  have inside : e.start ≤ (d.edited e).text.length := by
    rw [Document.edited, fits.length_apply]
    omega
  have reach := le_length_of_mem_lineStarts (e.restart_spec d.text).1
  rw [Document.edit, d.replace_eq fits]
  simp only [rescan_eq options inside rfl reach restored, Except.toOption, Option.map_some]
  rfl

/-- An edit takes place, and leaves what stands above the edited line. -/
theorem Regular.edit (options : s.options p = .ok o) {d : Document} (h : d.Regular o) {e : Edit}
    (fits : e.Fits d.text) :
    ∃ d', d.edit p s e = some d' ∧ d'.text = e.apply d.text ∧ d'.Regular o ∧
      SameAbove (e.restart d.text) (e.line d.text) d d' := by
  have edited := h.edited fits
  obtain ⟨member, -⟩ := e.restart_spec d.text
  have reach := Nat.add_sub_cancel' (le_length_of_mem_lineStarts member)
  obtain ⟨context, restored⟩ :=
    edited.contextAt member ((d.edited e).styleBefore (e.restart d.text))
  have scanned := edited.toSized.sameAbove_scanFrom member
    ((e.apply d.text).length - e.restart d.text)
    ((d.edited e).styleBefore (e.restart d.text)) o context
  rw [show (d.edited e).text = e.apply d.text from rfl, ← e.line_eq] at scanned
  exact ⟨_, edit_eq options fits restored, rfl, edited.scanFrom (Nat.le_of_eq reach) _ _,
    (h.toSized.sameAbove_edited fits).trans scanned⟩

/-- An edit of a document that has above the edited line what a scan of the edited text leaves
there leaves it fully scanned. -/
theorem Regular.scannedTo_edit (options : s.options p = .ok o) {d f : Document} (h : d.Regular o)
    {e : Edit} (fits : e.Fits d.text) (fresh : f.ScannedTo o f.text.length)
    (text : f.text = e.apply d.text)
    (same : SameAbove (e.restart d.text) (e.line d.text) d f) :
    ∃ d', d.edit p s e = some d' ∧ d'.text = e.apply d.text ∧ d'.ScannedTo o d'.text.length := by
  obtain ⟨member, -⟩ := e.restart_spec d.text
  have reach := Nat.add_sub_cancel' (le_length_of_mem_lineStarts member)
  -- The edit has kept what stood above, which is what the scan of the edited text leaves there.
  have scanned : (d.edited e).ScannedTo o (e.restart d.text) := by
    rw [e.line_eq, ← text] at same
    rw [← text] at member
    refine (fresh.back member (le_length_of_mem_lineStarts member)).of_sameAbove member text.symm
      (h.edited fits) (.trans ?_ same)
    rw [text, ← e.line_eq]
    exact (h.toSized.sameAbove_edited fits).symm
  obtain ⟨context, restored, extends_⟩ := scanned.resumes member
  have advances := scanned.scanFrom member (Nat.le_of_eq reach) (extends_ _)
  have full := advances.toScannedTo
  rw [reach] at full
  exact ⟨_, edit_eq options fits restored, rfl, full⟩

/-- Two documents show the same text in the same styles, and have the same data for every line with
a character in it. -/
structure SameHighlighting (d d' : Document) : Prop where
  text : d.text = d'.text
  styles : d.styles = d'.styles
  foldLevel : ∀ line : Nat, d.startOf line < d.startOf (line + 1) →
    d.foldLevel line = d'.foldLevel line
  lineState : ∀ line : Nat, d.startOf line < d.startOf (line + 1) →
    d.lineState line = d'.lineState line

/-- Fully scanned documents of one text differ at most in lines without characters. -/
theorem ScannedTo.sameHighlighting {d d' : Document} (h : d.ScannedTo o d.text.length)
    (h' : d'.ScannedTo o d'.text.length) (text : d.text = d'.text) : SameHighlighting d d' := by
  have same := h.sameAbove (text ▸ h') text
  have read {α : Type} {data data' : List α} {line : Nat}
      (some : d.startOf line < d.startOf (line + 1))
      (taken : data.take (finishedLines d.text.length d.text) =
        data'.take (finishedLines d.text.length d.text)) :
      itemAt data line = itemAt data' line := by
    have finished : line < finishedLines d.text.length d.text :=
      lt_finishedLines (Nat.le_refl _) some (lineStart_le_length d.text _)
    rw [itemAt_eq_iff, ← List.getElem?_take_of_lt finished, taken,
      List.getElem?_take_of_lt finished]
  refine ⟨text, ?_, fun line some => read some same.foldLevels,
    fun line some => read some same.lineStates⟩
  have styles := same.styles
  rwa [List.take_of_length_le (Nat.le_of_eq h.styles),
    List.take_of_length_le (Nat.le_of_eq (h'.styles.trans (by rw [text])))] at styles

/-- Documents that differ at most in lines without characters have the same above every line. -/
theorem SameHighlighting.sameAbove {d d' : Document} (h : SameHighlighting d d') (start : Nat) :
    SameAbove start (lineEnds start d.text) d d' := by
  have read {α : Type} {data data' : List α}
      (same : ∀ line : Nat, d.startOf line < d.startOf (line + 1) →
        itemAt data line = itemAt data' line) :
      data.take (lineEnds start d.text) = data'.take (lineEnds start d.text) := by
    refine List.ext_getElem? ?_
    intro line
    by_cases above : line < lineEnds start d.text
    · have below : line + 1 < (lineStarts d.text).length :=
        Nat.lt_of_le_of_lt above (lineEnds_lt_length start d.text)
      rw [List.getElem?_take_of_lt above, List.getElem?_take_of_lt above]
      exact itemAt_eq_iff.mp (same line (lineStart_lt_succ below))
    · rw [List.getElem?_take, List.getElem?_take, if_neg above, if_neg above]
  exact ⟨by rw [h.styles], read h.foldLevel, read h.lineState⟩

theorem scannedTo_scanAll (options : s.options p = .ok o) (text : List Char) :
    ∃ d r, (ofChars text).scanAll p s = .ok (d, r) ∧ d.text = text ∧
      d.ScannedTo o d.text.length := by
  obtain ⟨d, r, scanned, advances, -⟩ :=
    (scannedTo_ofChars o text).scan options List.mem_cons_self (Nat.le_of_eq (Nat.zero_add _))
  rw [Nat.zero_add] at advances
  exact ⟨d, r, scanned, advances.text, advances.text ▸ advances.toScannedTo⟩

theorem scannedTo_of_scanAll (options : s.options p = .ok o) {text : List Char} {d : Document}
    {r : ScanResult} (scanned : (ofChars text).scanAll p s = .ok (d, r)) :
    d.text = text ∧ d.ScannedTo o d.text.length := by
  obtain ⟨d', r', scanned', same, full⟩ := scannedTo_scanAll options text
  obtain ⟨rfl, -⟩ := Prod.mk.inj (Except.ok.inj (scanned'.symm.trans scanned))
  exact ⟨same, full⟩

/-- A document that is scanned, edited and scanned again from the edited line on shows what a scan
of the edited text shows, exactly when that scan leaves above the edited line what stood there
before; as it does unless the edit changes what a name or a parenthesis above the edited line
finds behind it. -/
theorem edit_sameHighlighting (options : s.options p = .ok o) (text : List Char) {e : Edit}
    (fits : e.Fits text) :
    ∃ d r d' f r', (ofChars text).scanAll p s = .ok (d, r) ∧ d.edit p s e = some d' ∧
      (ofChars (e.apply text)).scanAll p s = .ok (f, r') ∧
      (SameHighlighting d' f ↔ SameAbove (e.restart text) (e.line text) d f) ∧
      (e.KeepsMarks text → SameHighlighting d' f) := by
  obtain ⟨d, r, scanned, rfl, full⟩ := scannedTo_scanAll options text
  obtain ⟨f, r', fresh, text, full'⟩ := scannedTo_scanAll options (e.apply d.text)
  obtain ⟨d', edited, text', -, kept⟩ := full.toRegular.edit options fits
  have exact_ : SameHighlighting d' f ↔ SameAbove (e.restart d.text) (e.line d.text) d f := by
    constructor
    -- Neither the edit nor the scan behind it has touched the lines above.
    · intro shown
      have above := shown.sameAbove (e.restart d.text)
      rw [text', ← e.line_eq] at above
      exact kept.trans above
    · intro same
      obtain ⟨d'', edited', -, full''⟩ :=
        full.toRegular.scannedTo_edit options fits full' text same
      obtain rfl : d' = d'' := Option.some.inj (edited.symm.trans edited')
      exact full''.sameHighlighting full' (text'.trans text.symm)
  exact ⟨d, r, d', f, r', scanned, edited, fresh, exact_,
    fun marks => exact_.mpr (full.sameAbove_of_keepsMarks full' text fits marks)⟩

/-- A name keeps its style where the text below it is edited but still goes on with a colon. -/
theorem edit_sameHighlighting_colon :
    let text := ['(', 'b', '\n', ':', 'c']
    let e : Edit := ⟨3, 5, [' ', ':', 'd', '\n']⟩
    ∃ d r d' f r', (ofChars text).scanAll default {} = .ok (d, r) ∧
      d.edit default {} e = some d' ∧ (ofChars (e.apply text)).scanAll default {} = .ok (f, r') ∧
      SameHighlighting d' f := by
  intro text e
  obtain ⟨d, r, d', f, r', scanned, edited, fresh, -, shown⟩ :=
    edit_sameHighlighting (p := default) (s := {}) (o := ⟨.standard, true, .builtin⟩) rfl text
      (e := e) ⟨by decide, by decide⟩
  exact ⟨d, r, d', f, r', scanned, edited, fresh, shown (by decide)⟩

/-- Where the edit takes the colon away, the name above stays a property, which it is no more; and
where it takes the last character of the last line away, the empty line keeps its data. -/
theorem edit_ne_scanAll :
    (∃ d r d' f r', (ofChars ['(', 'b', '\n', ':', 'c']).scanAll default {} = .ok (d, r) ∧
      d.edit default {} ⟨3, 4, []⟩ = some d' ∧
      (ofChars ['(', 'b', '\n', 'c']).scanAll default {} = .ok (f, r') ∧
      d'.text = f.text ∧ d'.styleAt 1 = .ok .property ∧ f.styleAt 1 = .ok .identifier) ∧
    ∃ d r d' f r', (ofChars ['a', '\n', 'b']).scanAll default {} = .ok (d, r) ∧
      d.edit default {} ⟨2, 3, []⟩ = some d' ∧
      (ofChars ['a', '\n']).scanAll default {} = .ok (f, r') ∧
      d'.text = f.text ∧ d'.foldLevel 1 = .ok (some 0x4000400) ∧ f.foldLevel 1 = .ok none :=
  ⟨⟨_, _, _, _, _, rfl, rfl, rfl, rfl, rfl, rfl⟩, _, _, _, _, _, rfl, rfl, rfl, rfl, rfl, rfl⟩

end Document

end CssHighlight
