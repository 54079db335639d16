import CssHighlight.Proofs.Restart

/-!
# Scans at different places

What a scan writes depends on the text from its start on, on the style and the line data that it
resumes from, and on what looking back finds, but not on where the text stands or on what was
written there before.
-/
namespace CssHighlight

namespace Machine

/-- Machines that differ in the line break behind them start alike. -/
theorem alike_startAt (o : ScanOptions) (style : Style) (text : List Char) {x y : Option Char}
    (before : x.any isLineBreak = true) (before' : y.any isLineBreak = true) {context : Context}
    (outer : context.escape.outer.readsContext = false) (closed : context.interpolation = none) :
    Alike o text text [] [] (startAt style text x true context)
      (startAt style text y true context) where
  style := rfl
  held := rfl
  after := rfl
  waits := by rintro _ ⟨⟩
  previous := .of_lineBreak before before'
  atLineStart := rfl
  run := fun _ => ⟨[], rfl, rfl, rfl, rfl⟩
  context := Context.Alike.refl o style (fun _ => outer) (by simp [startAt, closed])
  latest := rfl
  lines := rfl

end Machine

namespace Document

/-- The data that a scan from `start` resumes from. -/
structure ResumesWith (d : Document) (start : Nat) (initStyle : Style) (state : Nat)
    (carried : Int) (last : Option Char × Style) : Prop where
  lineStart : start ∈ lineStarts d.text
  positive : 0 < start
  lineState : d.lineState (d.lineAt start - 1) = .ok (.int state)
  foldLevel : (d.foldLevel (d.lineAt start - 1)).map FoldLevel.carried = .ok carried
  lookBack : initStyle.isSpace = true → d.lookBack start = .ok last

/-- The context in which a scan begins that resumes from given data. -/
def resumedContext (initStyle : Style) (state : Nat) (carried : Int)
    (last : Option Char × Style) : Context :=
  { LineState.restore state .initial with
    foldHere := carried
    foldNext := carried
    lastChar := if initStyle.isSpace then last.1 else none
    lastStyle := if initStyle.isSpace then last.2 else .default }

namespace ResumesWith

variable {d : Document} {start state : Nat} {initStyle : Style} {carried : Int}
  {last : Option Char × Style}

theorem contextAt_eq (h : d.ResumesWith start initStyle state carried last) :
    d.contextAt start initStyle = .ok (resumedContext initStyle state carried last) := by
  have above := lineEnds_pos h.lineStart h.positive
  have line : (d.lineAt start).toNat = lineEnds start d.text := by
    rw [lineAt_eq, Int.toNat_natCast]
  have before : d.lineAt start - 1 = ((lineEnds start d.text - 1 : Nat) : Int) := by
    rw [lineAt_eq]
    omega
  have lineState := h.lineState
  have foldLevel := h.foldLevel
  rw [Document.lineState, before, itemAt_natCast] at lineState
  rw [Document.foldLevel, before, itemAt_natCast] at foldLevel
  have found : d.lineStates[(d.lineAt start).toNat - 1]? = some (.int state) := by
    rw [line]
    split at lineState
    next item found => rw [found, Except.ok.inj lineState]
    next => cases lineState
  have level : d.carriedInto start = carried := by
    rw [carriedInto, line]
    split at foldLevel
    next item found => rw [found, Option.getD_some, Except.ok.inj foldLevel]
    next => cases foldLevel
  have back (space : initStyle.isSpace = true) : d.lastSignificant start = last := by
    rw [lastSignificant, h.lookBack space]
  rw [d.contextAt_lineStart initStyle h.positive (by omega) found, level, resumedContext]
  cases space : initStyle.isSpace with
  | true => rw [back space]
  | false => rfl

end ResumesWith

/-- The same was written over `n` characters from `start` on in one document, and from `start'`
on in the other, where both go on with `text`. -/
structure SameOutput (o : ScanOptions) (text : List Char) (n : Nat) (d d' : Document)
    (start start' : Nat) : Prop where
  styleAt : ∀ i < n, d.styleAt (start + i) = d'.styleAt (start' + i)
  lineState : ∀ k < finishedLines n text,
    d.lineState (d.lineAt start + k) = d'.lineState (d'.lineAt start' + k)
  foldLevel : o.fold = true → ∀ k < finishedLines n text,
    d.foldLevel (d.lineAt start + k) = d'.foldLevel (d'.lineAt start' + k)

theorem itemAt_overlay {α : Type} {items old old' : List α} {first first' i : Nat}
    (le : first ≤ old.length) (le' : first' ≤ old'.length) (inside : i < items.length) :
    itemAt (overlay first items old) ((first : Int) + i) =
      itemAt (overlay first' items old') ((first' : Int) + i) := by
  rw [← Int.natCast_add, ← Int.natCast_add]
  exact itemAt_eq_iff.mpr ((getElem?_overlay items le inside).trans
    (getElem?_overlay items le' inside).symm)

/-- Scans that finish the same styles and lines write the same. -/
theorem sameOutput_scanFrom {o : ScanOptions} {d d' : Document} {start start' n : Nat}
    {initStyle : Style} {context : Context} (sized : d.Sized) (sized' : d'.Sized)
    (le : start ≤ d.text.length) (le' : start' ≤ d'.text.length)
    (fits : n ≤ (d.text.drop start).length)
    (latest : (d.scanMachine start n initStyle o context).latest =
      (d'.scanMachine start' n initStyle o context).latest)
    (lines : (d.scanMachine start n initStyle o context).lines =
      (d'.scanMachine start' n initStyle o context).lines) :
    SameOutput o (d.text.drop start) n (d.scanFrom start n initStyle o context).1
      (d'.scanFrom start' n initStyle o context).1 start start' := by
  have count : (d'.scanMachine start' n initStyle o context).latest.reverse.length = n := by
    rw [← latest, List.length_reverse, scanMachine, Machine.length_latest_run fits]
    exact Nat.zero_add n
  have lineCount : (d'.scanMachine start' n initStyle o context).lines.length =
      finishedLines n (d.text.drop start) := by
    obtain ⟨_, cut, length, -⟩ :=
      @Machine.lines_run o n (d.text.drop start) (d.machineAt start initStyle context)
    rw [← lines, scanMachine, cut, ← length]
    exact congrArg List.length (List.append_nil _)
  have above : lineEnds start d.text ≤ d.lineCount :=
    Nat.le_of_lt (lineEnds_lt_length start d.text)
  have above' : lineEnds start' d'.text ≤ d'.lineCount :=
    Nat.le_of_lt (lineEnds_lt_length start' d'.text)
  have line : (d.scanFrom start n initStyle o context).1.lineAt start = lineEnds start d.text :=
    lineAt_eq _ _
  have line' : (d'.scanFrom start' n initStyle o context).1.lineAt start' =
      lineEnds start' d'.text := lineAt_eq _ _
  refine ⟨fun i inside => ?_, fun k inside => ?_, fun fold k inside => ?_⟩
  · rw [styleAt, styleAt, styles_scanFrom, styles_scanFrom, latest]
    exact itemAt_overlay (sized.styles ▸ le) (sized'.styles ▸ le') (by rw [count]; exact inside)
  · rw [lineState, lineState, lineStates_scanFrom, lineStates_scanFrom, lines, line, line',
      lineAt_eq, lineAt_eq, Int.toNat_natCast, Int.toNat_natCast]
    exact itemAt_overlay (sized.lineStates ▸ above) (sized'.lineStates ▸ above')
      (by rw [List.length_map, List.length_reverse, lineCount]; exact inside)
  · rw [foldLevel, foldLevel, foldLevels_scanFrom, foldLevels_scanFrom, if_pos fold, if_pos fold,
      lines, line, line', lineAt_eq, lineAt_eq, Int.toNat_natCast, Int.toNat_natCast]
    exact itemAt_overlay (sized.foldLevels ▸ above) (sized'.foldLevels ▸ above')
      (by rw [List.length_map, List.length_reverse, lineCount]; exact inside)

/-- Scans from two line starts, in front of the same text and with the same data to resume from,
write the same styles and line data, and end in the same style. Without folding they leave the
fold levels of both documents alone. -/
theorem scan_position_independent {p p' : Place} {s s' : ScanSetup} {o : ScanOptions}
    (options : s.options p = .ok o) (options' : s'.options p' = .ok o) {d d' : Document}
    (sized : d.Sized) (sized' : d'.Sized) {start start' : Nat} {initStyle : Style}
    {state state' : Nat} {carried : Int} {last : Option Char × Style}
    (h : d.ResumesWith start initStyle state carried last)
    (h' : d'.ResumesWith start' initStyle state' carried last)
    (states : state % 0x1000000 = state' % 0x1000000)
    (texts : d.text.drop start = d'.text.drop start') {n : Nat} (fits : start + n ≤ d.length) :
    ∃ e r e' r', d.scan p s start n initStyle = .ok (e, r) ∧
      d'.scan p' s' start' n initStyle = .ok (e', r') ∧
      SameOutput o (d.text.drop start) n e e' start start' ∧ r.endStyle = r'.endStyle ∧
      (o.fold = false → e.foldLevels = d.foldLevels ∧ e'.foldLevels = d'.foldLevels) := by
  have le := le_length_of_mem_lineStarts h.lineStart
  have le' := le_length_of_mem_lineStarts h'.lineStart
  have ahead := congrArg List.length texts
  rw [List.length_drop, List.length_drop] at ahead
  have fits : start + n ≤ d.text.length := fits
  have fits' : start' + n ≤ d'.text.length := by omega
  have restored := h.contextAt_eq
  have restored' := h'.contextAt_eq
  -- Both scans begin in one context: the bits of a line state above the fields are not read.
  have same : resumedContext initStyle state' carried last =
      resumedContext initStyle state carried last := by
    rw [resumedContext, resumedContext, LineState.restore_eq_of_mod states]
  rw [same] at restored'
  obtain ⟨_, b, _, cut, at_, ends⟩ :=
    (mem_lineStarts_iff.mp h.lineStart).resolve_left (Nat.ne_of_gt h.positive)
  obtain ⟨_, b', _, cut', at', ends'⟩ :=
    (mem_lineStarts_iff.mp h'.lineStart).resolve_left (Nat.ne_of_gt h'.positive)
  have breaks : (some b).any isLineBreak = true := isLineBreak_of_endsLine ends
  have breaks' : (some b').any isLineBreak = true := isLineBreak_of_endsLine ends'
  -- They differ at most in the line break behind them, which no rule tells from another one.
  have alike : Machine.Alike o ((d.text.drop start).drop n) ((d.text.drop start).drop n) [] []
      (d.scanMachine start n initStyle o (resumedContext initStyle state carried last))
      (d'.scanMachine start' n initStyle o (resumedContext initStyle state carried last)) := by
    rw [scanMachine, scanMachine, d.machineAt_lineStart h.lineStart cut at_,
      d'.machineAt_lineStart h'.lineStart cut' at', ← texts]
    exact (Machine.alike_startAt o initStyle _ breaks breaks' rfl rfl).run_same n
  refine ⟨_, _, _, _, scan_eq options d fits restored, scan_eq options' d' fits' restored', ?_,
    alike.extends.endStyle, fun unfolded => ?_⟩
  · refine sameOutput_scanFrom sized sized' le le' ?_ ?_ ?_
    · rw [List.length_drop]
      omega
    · rw [alike.latest, List.append_nil]
    · rw [alike.lines, List.append_nil]
  · have untouched (d : Document) (start : Nat) (context : Context) :
        (d.scanFrom start n initStyle o context).1.foldLevels = d.foldLevels := by
      rw [foldLevels_scanFrom, unfolded]
      rfl
    exact ⟨untouched d start _, untouched d' start' _⟩

/-- A blank line behind two texts of different length, with line data that differs in bits which
are not read, and inside the range. -/
theorem scan_position_independent_blank :
    let d := ofChars ['\n', ' ', '\n']
    let d' := { ofChars ['\t', '\r', '\n', ' ', '\n'] with
      lineStates := [.int (0x1000000), .int 5, .int 0] }
    ∃ e r e' r', d.scan default {} 1 2 .default = .ok (e, r) ∧
      d'.scan default {} 3 2 .default = .ok (e', r') ∧
      SameOutput ⟨.standard, true, .builtin⟩ [' ', '\n'] 2 e e' 1 3 ∧ r.endStyle = r'.endStyle ∧
      (true = false → e.foldLevels = d.foldLevels ∧ e'.foldLevels = d'.foldLevels) := by
  intro d d'
  have h : d.ResumesWith 1 .default 0 Context.baseFold (none, .default) :=
    ⟨by decide, by decide, rfl, rfl, fun _ => rfl⟩
  have h' : d'.ResumesWith 3 .default (0x1000000) Context.baseFold (none, .default) :=
    ⟨by decide, by decide, rfl, rfl, fun _ => rfl⟩
  exact scan_position_independent (o := ⟨.standard, true, .builtin⟩) rfl rfl ⟨rfl, rfl, rfl⟩
    ⟨rfl, rfl, rfl⟩ h h' (by decide) rfl (by decide)

/-- Without folding a scan leaves the fold level of a line in its range as it was, so that two
documents which differ there go on to differ. -/
theorem scan_unfolded_foldLevel_ne :
    let s : ScanSetup := { config := { fold := .bool false } }
    let d := ofChars ['\n', '\n']
    ∃ d' e r e' r', d.setFoldLevel 1 (some 7) = .ok d' ∧
      d.ResumesWith 1 .default 0 Context.baseFold (none, .default) ∧
      d'.ResumesWith 1 .default 0 Context.baseFold (none, .default) ∧
      d.scan default s 1 1 .default = .ok (e, r) ∧
      d'.scan default s 1 1 .default = .ok (e', r') ∧
      e.foldLevel 1 = .ok none ∧ e'.foldLevel 1 = .ok (some 7) :=
  ⟨_, _, _, _, _, rfl, ⟨by decide, by decide, rfl, rfl, fun _ => rfl⟩,
    ⟨by decide, by decide, rfl, rfl, fun _ => rfl⟩, rfl, rfl, rfl, rfl⟩

end Document

end CssHighlight
