import CssHighlight.Proofs.LineTable
import CssHighlight.Proofs.Resume
import CssHighlight.Scan.Range

/-!
# Scanned documents

A document is scanned up to a position when its styles, and the data of the lines that end before
it, are those of a scan from the front. A scan from the start of a line brings it further, and
touches nothing else.
-/
namespace CssHighlight

namespace Machine

variable {o : ScanOptions} {n : Nat} {text : List Char}

theorem length_latest_scanned (le : n ≤ text.length) : (scanned o n text).latest.length = n := by
  rw [scanned, length_latest_run le]
  simp [fresh, startAt, latest]

theorem lines_scanned (o : ScanOptions) (n : Nat) (text : List Char) :
    (scanned o n text).lines.length = finishedLines n text ∧
      ∀ line ∈ (scanned o n text).lines, line.fold.isSome = o.fold := by
  obtain ⟨lines, cut, count, folds⟩ := @lines_run o n text (fresh text)
  simp only [fresh, startAt, List.append_nil] at cut
  rw [scanned, fresh, startAt, cut]
  exact ⟨count, folds⟩

theorem scanned_add (a b : Nat) (text : List Char) :
    scanned o (a + b) text = (scanned o a text).run o b (text.drop a) :=
  run_add a b text _

/-- Where a line starts, the line above is recorded, and a line break was taken last. -/
theorem steady_lineStart (o : ScanOptions) {start : Nat} {text : List Char}
    (member : start ∈ lineStarts text) (positive : 0 < start) :
    ∃ before b, text = before ++ b :: text.drop start ∧ start = before.length + 1 ∧
      isLineBreak b = true ∧ lastOfLine b (text.drop start) = true ∧
      Steady o (b :: before.reverse) (text.drop start) (scanned o start text) ∧
      Recorded o (scanned o start text) := by
  obtain ⟨before, b, rest, rfl, rfl, ends⟩ :=
    (mem_lineStarts_iff.mp member).resolve_left (Nat.ne_of_gt positive)
  have steady := steady_scanned o (before.length + 1) (before ++ b :: rest)
  have ahead : (before ++ b :: rest).drop (before.length + 1) = rest := by
    simp [List.drop_append]
  have seen : ((before ++ b :: rest).take (before.length + 1)).reverse = b :: before.reverse := by
    simp [List.take_append, List.take_of_length_le]
  have last : lastOfLine b rest = true := by simp [lastOfLine, ends]
  rw [seen, ahead] at steady
  rw [ahead]
  exact ⟨before, b, rfl, rfl, isLineBreak_of_endsLine ends, last, steady,
    steady.ended (by simpa using last)⟩

theorem Recorded.restored {m : Machine} (h : Recorded o m)
    (settled : m.context.mathPending = false) :
    Context.Restored o m.style m.context m.context where
  inValue := rfl
  inBrackets := rfl
  mathDepth := rfl
  parenDepth := rfl
  selectorDepth := rfl
  interpolation := h.interpolation
  mathPending := settled
  foldHere := fun _ => rfl
  foldNext := fun _ => h.level
  last := fun _ => ⟨rfl, rfl⟩

/-- Behind a finished line no style that was given to a character changes any more. -/
theorem scanned_extends (o : ScanOptions) {start : Nat} {text : List Char}
    (member : start ∈ lineStarts text) (le : start ≤ n) :
    ∃ styles, (scanned o n text).latest = styles ++ (scanned o start text).latest := by
  obtain ⟨k, rfl⟩ := Nat.exists_eq_add_of_le le
  rcases Nat.eq_zero_or_pos start with rfl | positive
  · exact ⟨_, (List.append_nil _).symm⟩
  · obtain ⟨_, b, -, -, breaks, last, steady, recorded⟩ := steady_lineStart o member positive
    have previous : (some b).any isLineBreak = true := breaks
    have extends_ := steady.extends_restored breaks last previous
      (recorded.restored steady.settled) k
    rw [← scanned_add] at extends_
    exact ⟨_, extends_.latest⟩

theorem lines_extends (o : ScanOptions) {start : Nat} (text : List Char) (le : start ≤ n) :
    ∃ lines, (scanned o n text).lines = lines ++ (scanned o start text).lines := by
  obtain ⟨k, rfl⟩ := Nat.exists_eq_add_of_le le
  obtain ⟨lines, cut, -⟩ := lines_run (o := o) k (text.drop start) (scanned o start text)
  exact ⟨lines, by rw [scanned_add, cut]⟩

end Machine

theorem itemAt_natCast {α : Type} (items : List α) (i : Nat) :
    itemAt items i = match items[i]? with
      | some item => .ok item
      | none => .error .read := by
  unfold itemAt index?
  rw [if_pos (Int.natCast_nonneg i)]
  by_cases inside : i < items.length
  · simp [inside]
  · simp [inside]

theorem putItem_natCast {α : Type} (items : List α) {i : Nat} (inside : i < items.length)
    (item : α) : putItem items i item = .ok (items.set i item) := by
  simp [putItem, index?, inside]

theorem itemAt_eq_ok_iff {α : Type} {items : List α} {i : Nat} {item : α} :
    itemAt items i = .ok item ↔ items[i]? = some item := by
  rw [itemAt_natCast]
  cases items[i]? <;> simp

theorem itemAt_eq_iff {α : Type} {items items' : List α} {i i' : Nat} :
    itemAt items i = itemAt items' i' ↔ items[i]? = items'[i']? := by
  rw [itemAt_natCast, itemAt_natCast]
  cases items[i]? <;> cases items'[i']? <;> simp

namespace Document

section Overlay

variable {α : Type} {start : Nat} {items old : List α}

theorem length_overlay (fits : start + items.length ≤ old.length) :
    (overlay start items old).length = old.length := by
  simp only [overlay, List.length_append, List.length_take, List.length_drop]
  omega

theorem mem_overlay {item : α} (member : item ∈ overlay start items old) :
    item ∈ items ∨ item ∈ old := by
  simp only [overlay, List.mem_append] at member
  rcases member with (front | new) | back
  · exact .inr (List.mem_of_mem_take front)
  · exact .inl new
  · exact .inr (List.mem_of_mem_drop back)

theorem take_start_overlay (le : start ≤ old.length) :
    (overlay start items old).take start = old.take start := by
  rw [overlay, List.append_assoc]
  exact List.take_left' (List.length_take_of_le le)

theorem take_overlay (le : start ≤ old.length) :
    (overlay start items old).take (start + items.length) = old.take start ++ items := by
  have size : (old.take start ++ items).length = start + items.length := by
    simp only [List.length_append, List.length_take]
    omega
  rw [overlay, ← size, List.take_left]

theorem drop_overlay (le : start ≤ old.length) :
    (overlay start items old).drop (start + items.length) =
      old.drop (start + items.length) := by
  have size : (old.take start ++ items).length = start + items.length := by
    simp only [List.length_append, List.length_take]
    omega
  rw [overlay, ← size, List.drop_left, size]

theorem getElem?_overlay (items : List α) (le : start ≤ old.length) {i : Nat}
    (inside : i < items.length) :
    (overlay start items old)[start + i]? = items[i]? := by
  have size : (old.take start).length = start := List.length_take_of_le le
  rw [overlay, List.append_assoc, List.getElem?_append_right (by omega), size,
    Nat.add_sub_cancel_left, List.getElem?_append_left inside]

theorem getElem?_overlay_other (items : List α) (le : start ≤ old.length) {i : Nat}
    (other : i < start ∨ start + items.length ≤ i) : (overlay start items old)[i]? = old[i]? := by
  rcases other with before | behind
  · rw [← List.getElem?_take_of_lt before, take_start_overlay le, List.getElem?_take_of_lt before]
  · have dropped := congrArg (·[i - (start + items.length)]?) (@drop_overlay α start items old le)
    simpa only [List.getElem?_drop, Nat.add_sub_cancel' behind] using dropped

/-- Two pieces that are put one behind the other. -/
theorem overlay_append (items more : List α) {old : List α} (le : start ≤ old.length) :
    overlay (start + items.length) more (overlay start items old) =
      overlay start (items ++ more) old := by
  rw [overlay, take_overlay le, ← List.drop_drop, drop_overlay le, List.drop_drop,
    Nat.add_assoc, ← List.length_append, List.append_assoc (old.take start), overlay]

theorem overlay_singleton (item : α) {old : List α} (inside : start < old.length) :
    overlay start [item] old = old.set start item := by
  rw [List.set_eq_take_append_cons_drop, if_pos inside, overlay]
  simp

end Overlay

theorem overlay_nil {α : Type} (start : Nat) (old : List α) : overlay start [] old = old := by
  simp [overlay]

/-! ### What a scan writes -/

/-- Lines are written with their fold levels or all without. -/
theorem foldLevels_putLines {d : Document} {fold : Bool} {first : Nat} {lines : List LineData}
    (folds : ∀ line ∈ lines, line.fold.isSome = fold) : (d.putLines first lines).foldLevels =
      if fold then overlay first (lines.map fun line => line.fold.map Int.ofNat) d.foldLevels
      else d.foldLevels := by
  simp only [putLines]
  cases fold with
  | true =>
    cases lines with
    | nil => simp [overlay_nil]
    | cons line lines => simp [folds line List.mem_cons_self]
  | false =>
    have none : (lines.any fun line => line.fold.isSome) = false :=
      List.any_eq_false.mpr fun line member => by simp [folds line member]
    simp [none]

section Written

variable (d : Document) (start n : Nat) (initStyle : Style) (o : ScanOptions) (context : Context)

/-- The machine that has scanned a range. -/
def scanMachine : Machine :=
  (d.machineAt start initStyle context).run o n (d.text.drop start)

theorem scanMachine_add (k : Nat) : d.scanMachine start (k + n) initStyle o context =
    (d.scanMachine start k initStyle o context).run o n (d.text.drop (start + k)) := by
  rw [scanMachine, Machine.run_add, List.drop_drop]
  rfl

theorem lines_scanMachine :
    (d.scanMachine start n initStyle o context).lines.length =
        finishedLines n (d.text.drop start) ∧
      ∀ line ∈ (d.scanMachine start n initStyle o context).lines, line.fold.isSome = o.fold := by
  obtain ⟨lines, cut, count, folds⟩ :=
    @Machine.lines_run o n (d.text.drop start) (d.machineAt start initStyle context)
  rw [show (d.machineAt start initStyle context).lines = [] from rfl, List.append_nil] at cut
  rw [scanMachine, cut]
  exact ⟨count, folds⟩

theorem styles_scanFrom : (d.scanFrom start n initStyle o context).1.styles =
    overlay start (d.scanMachine start n initStyle o context).latest.reverse d.styles := by
  simp only [scanFrom, putLines, Machine.styles_eq, Machine.latest_finish, scanMachine]

theorem lineStates_scanFrom : (d.scanFrom start n initStyle o context).1.lineStates =
    overlay (d.lineAt start).toNat ((d.scanMachine start n initStyle o context).lines.reverse.map
      fun line => Value.int line.state) d.lineStates := by
  simp only [scanFrom, putLines, Machine.lines_finish, scanMachine]

theorem foldLevels_scanFrom : (d.scanFrom start n initStyle o context).1.foldLevels =
    if o.fold then
      overlay (d.lineAt start).toNat ((d.scanMachine start n initStyle o context).lines.reverse.map
        fun line => line.fold.map Int.ofNat) d.foldLevels
    else d.foldLevels := by
  have folds := (d.lines_scanMachine start n initStyle o context).2
  simp only [scanMachine] at folds ⊢
  simp only [scanFrom, Machine.lines_finish]
  rw [foldLevels_putLines fun line member => folds line (List.mem_reverse.mp member)]

end Written

/-- A document with a style for every character, and a fold level and a line state for every
line. -/
structure Sized (d : Document) : Prop where
  styles : d.styles.length = d.text.length
  foldLevels : d.foldLevels.length = d.lineCount
  lineStates : d.lineStates.length = d.lineCount

/-- A document as scans and edits leave it: line states are numbers, and without folding it holds
no fold levels. -/
structure Regular (o : ScanOptions) (d : Document) : Prop extends Sized d where
  stored : ∀ state ∈ d.lineStates, ∃ n : Nat, state = .int n
  unfolded : o.fold = false → ∀ level ∈ d.foldLevels, level = none

theorem sized_ofChars (text : List Char) : (ofChars text).Sized where
  styles := List.length_map _
  foldLevels := List.length_map _
  lineStates := List.length_map _

theorem regular_ofChars (o : ScanOptions) (text : List Char) : (ofChars text).Regular o :=
  { sized_ofChars text with
    stored := by
      intro state member
      obtain ⟨_, -, rfl⟩ := List.mem_map.mp member
      exact ⟨0, rfl⟩
    unfolded := by
      intro _ level member
      obtain ⟨_, -, rfl⟩ := List.mem_map.mp member
      rfl }

theorem length_lines_scanMachine (d : Document) {start n : Nat} (fits : start + n ≤ d.text.length)
    (initStyle : Style) (o : ScanOptions) (context : Context) :
    (d.lineAt start).toNat + (d.scanMachine start n initStyle o context).lines.length ≤
      d.lineCount := by
  rw [(d.lines_scanMachine start n initStyle o context).1, lineAt, lineOf_lineStarts,
    Int.toNat_natCast]
  exact lineEnds_add_finishedLines_le fits

theorem length_latest_scanMachine (d : Document) {start n : Nat}
    (fits : start + n ≤ d.text.length) (initStyle : Style) (o : ScanOptions) (context : Context) :
    (d.scanMachine start n initStyle o context).latest.length = n := by
  rw [scanMachine, Machine.length_latest_run (by rw [List.length_drop]; omega)]
  simp [machineAt, Machine.latest]

theorem Sized.scanFrom {d : Document} (h : d.Sized) {start n : Nat}
    (fits : start + n ≤ d.text.length) (initStyle : Style) (o : ScanOptions) (context : Context) :
    (d.scanFrom start n initStyle o context).1.Sized where
  styles := by
    rw [styles_scanFrom, length_overlay]
    · exact h.styles
    · rwa [List.length_reverse, d.length_latest_scanMachine fits, h.styles]
  foldLevels := by
    rw [foldLevels_scanFrom]
    split
    next =>
      rw [length_overlay]
      · exact h.foldLevels
      · rw [List.length_map, List.length_reverse, h.foldLevels]
        exact d.length_lines_scanMachine fits initStyle o context
    next => exact h.foldLevels
  lineStates := by
    rw [lineStates_scanFrom, length_overlay]
    · exact h.lineStates
    · rw [List.length_map, List.length_reverse, h.lineStates]
      exact d.length_lines_scanMachine fits initStyle o context

/-- A line of one document has the data that a line of another one has. -/
structure SameLine (d : Document) (line : Nat) (d' : Document) (line' : Nat) : Prop where
  foldLevel : d.foldLevel line = d'.foldLevel line'
  lineState : d.lineState line = d'.lineState line'

/-- A scan leaves the data of the lines that do not end in its range. -/
theorem Sized.sameLine_scanFrom {d : Document} (h : d.Sized) {start n : Nat} (initStyle : Style)
    (o : ScanOptions) (context : Context) {line : Nat}
    (other : line < lineEnds start d.text ∨
      lineEnds start d.text + finishedLines n (d.text.drop start) ≤ line) :
    SameLine (d.scanFrom start n initStyle o context).1 line d line := by
  have first : (d.lineAt start).toNat = lineEnds start d.text := by
    rw [lineAt, lineOf_lineStarts, Int.toNat_natCast]
  have inside : lineEnds start d.text ≤ d.lineCount :=
    Nat.le_of_lt (lineEnds_lt_length start d.text)
  rw [← (d.lines_scanMachine start n initStyle o context).1] at other
  have same {α : Type} {old : List α} (read : LineData → α)
      (le : lineEnds start d.text ≤ old.length) :
      itemAt (overlay (lineEnds start d.text)
        ((d.scanMachine start n initStyle o context).lines.reverse.map read) old) line =
          itemAt old line :=
    itemAt_eq_iff.mpr (getElem?_overlay_other _ le (by simpa using other))
  constructor
  · rw [foldLevel, foldLevels_scanFrom, first]
    split
    next => exact same _ (h.foldLevels ▸ inside)
    next => rfl
  · rw [lineState, lineStates_scanFrom, first]
    exact same _ (h.lineStates ▸ inside)

theorem Regular.scanFrom {o : ScanOptions} {d : Document} (h : d.Regular o) {start n : Nat}
    (fits : start + n ≤ d.text.length) (initStyle : Style) (context : Context) :
    (d.scanFrom start n initStyle o context).1.Regular o :=
  { h.toSized.scanFrom fits initStyle o context with
    stored := by
      intro state member
      rw [lineStates_scanFrom] at member
      rcases mem_overlay member with new | old
      · obtain ⟨line, -, rfl⟩ := List.mem_map.mp new
        exact ⟨_, rfl⟩
      · exact h.stored state old
    unfolded := by
      intro unfolded
      rw [foldLevels_scanFrom, if_neg (by simp [unfolded])]
      exact h.unfolded unfolded }

/-- Without folding, the fold levels of a regular document are all the same. -/
theorem Regular.foldLevels_take {o : ScanOptions} {d : Document} (h : d.Regular o)
    (fold : o.fold = false) {k : Nat} (le : k ≤ d.lineCount) :
    d.foldLevels.take k = List.replicate k none := by
  rw [List.eq_replicate_of_mem (h.unfolded fold), List.take_replicate, h.foldLevels,
    Nat.min_eq_left le]

theorem Regular.foldLevels_eq {o : ScanOptions} {d d' : Document} (h : d.Regular o)
    (h' : d'.Regular o) (text : d.text = d'.text) (fold : o.fold = false) :
    d.foldLevels = d'.foldLevels := by
  have count : d.lineCount = d'.lineCount := by rw [lineCount, lineCount, text]
  rw [List.eq_replicate_of_mem (h.unfolded fold), List.eq_replicate_of_mem (h'.unfolded fold),
    h.foldLevels, h'.foldLevels, count]

/-- The style at the position before `start`; in front of the text it is the default. -/
def styleBefore (d : Document) (start : Nat) : Style :=
  if start = 0 then .default else (d.styleAt ((start : Int) - 1)).toOption.getD .default

/-- The document holds the styles of its first `n` characters, and the data of the lines that end
among them, as a scan from the front gives them. -/
structure ScannedTo (o : ScanOptions) (d : Document) (n : Nat) : Prop extends Regular o d where
  fits : n ≤ d.text.length
  styles_take : d.styles.take n = (Machine.scanned o n d.text).styles
  lineStates_take : d.lineStates.take (finishedLines n d.text) =
    (Machine.scanned o n d.text).lines.reverse.map fun line => Value.int line.state
  foldLevels_take : o.fold = true → d.foldLevels.take (finishedLines n d.text) =
    (Machine.scanned o n d.text).lines.reverse.map fun line => line.fold.map Int.ofNat

theorem styleBefore_eq_getD (d : Document) (start : Nat) : d.styleBefore start =
    if start = 0 then .default else d.styles[start - 1]?.getD .default := by
  unfold styleBefore
  split
  next => rfl
  next positive =>
    have place : (start : Int) - 1 = (start - 1 : Nat) := by omega
    rw [place, styleAt, itemAt_natCast]
    cases d.styles[start - 1]? <;> rfl

theorem scannedTo_ofChars (o : ScanOptions) (text : List Char) : (ofChars text).ScannedTo o 0 :=
  { regular_ofChars o text with
    fits := Nat.zero_le _
    styles_take := rfl
    lineStates_take := rfl
    foldLevels_take := fun _ => rfl }

/-- The oldest of what was recorded stands in front. -/
theorem take_reverse_append {α β : Type} {data : List β} {f : α → β} {later older : List α}
    (taken : data.take (later ++ older).length = (later ++ older).reverse.map f) :
    data.take older.length = older.reverse.map f := by
  have front : data.take older.length = (data.take (later ++ older).length).take older.length := by
    rw [List.take_take, List.length_append, Nat.min_eq_left (Nat.le_add_left _ _)]
  rw [front, taken, List.reverse_append, List.map_append]
  exact List.take_left' (by simp)

/-- What is scanned is scanned up to every line start before. -/
theorem ScannedTo.back {o : ScanOptions} {d : Document} {start n : Nat} (h : d.ScannedTo o n)
    (member : start ∈ lineStarts d.text) (le : start ≤ n) : d.ScannedTo o start := by
  obtain ⟨styles, latest⟩ := Machine.scanned_extends o member le
  obtain ⟨lines, recorded⟩ := Machine.lines_extends o d.text le
  have styles_take := h.styles_take
  have lineStates_take := h.lineStates_take
  have foldLevels_take := h.foldLevels_take
  have reach := Nat.le_trans le h.fits
  -- What the scan to `n` has recorded ends with what the scan to `start` has.
  rw [Machine.styles_eq, latest, ← Machine.length_latest_scanned (o := o) h.fits, latest,
    ← List.map_id (List.reverse _)] at styles_take
  rw [← (Machine.lines_scanned o n d.text).1, recorded] at lineStates_take foldLevels_take
  have styled := take_reverse_append styles_take
  rw [Machine.length_latest_scanned reach, List.map_id, ← Machine.styles_eq] at styled
  have front {α : Type} {data : List α} {f : LineData → α}
      (taken : data.take (lines ++ (Machine.scanned o start d.text).lines).length =
        (lines ++ (Machine.scanned o start d.text).lines).reverse.map f) :
      data.take (finishedLines start d.text) =
        (Machine.scanned o start d.text).lines.reverse.map f := by
    rw [← (Machine.lines_scanned o start d.text).1]
    exact take_reverse_append taken
  exact { h.toRegular with
    fits := reach
    styles_take := styled
    lineStates_take := front lineStates_take
    foldLevels_take := fun fold => front (foldLevels_take fold) }

/-! ### Where a scan resumes -/

/-- The level that is carried into the line of a position. -/
def carriedInto (d : Document) (position : Nat) : Int :=
  FoldLevel.carried (d.foldLevels[(d.lineAt position).toNat - 1]?.getD none)

theorem contextAt_zero (d : Document) (initStyle : Style) :
    d.contextAt 0 initStyle = .ok .initial := by
  have line : d.lineAt 0 = 0 := lineOf_lineStarts 0 d.text
  unfold contextAt
  simp [line, pure, Except.pure, Context.initial]

theorem contextAt_lineStart (d : Document) {start state : Nat} (initStyle : Style)
    (positive : 0 < start) (line : 0 < (d.lineAt start).toNat)
    (found : d.lineStates[(d.lineAt start).toNat - 1]? = some (.int state)) :
    d.contextAt start initStyle = .ok
      { LineState.restore state .initial with
        foldHere := d.carriedInto start
        foldNext := d.carriedInto start
        lastChar := if initStyle.isSpace then (d.lastSignificant start).1 else none
        lastStyle := if initStyle.isSpace then (d.lastSignificant start).2 else .default } := by
  unfold contextAt
  simp only [line, if_true, found, Option.getD_some]
  cases space : initStyle.isSpace <;>
    simp [positive, LineState.decode, LineState.restore, carriedInto, bind, Except.bind, pure,
      Except.pure, Context.initial]

theorem lastSignificant_eq (d : Document) {start : Nat} (le : start ≤ d.text.length)
    (size : d.styles.length = d.text.length) :
    d.lastSignificant start =
      lookBehind (d.text.take start).reverse (d.styles.take start).reverse := by
  have inside : ¬(d.length : Int) < (start : Int) := by
    simp only [length]
    omega
  have lengths : (d.text.take start).length = (d.styles.take start).length := by
    simp [size]
  simp only [lastSignificant, lookBack, lookBehind, if_neg inside, Int.toNat_natCast, List.zip,
    List.take_zipWith, List.reverse_zipWith lengths]
  cases List.find? _ _ <;> rfl

theorem machineAt_lineStart (d : Document) {start : Nat} (member : start ∈ lineStarts d.text)
    {before : List Char} {b : Char} {rest : List Char} (cut : d.text = before ++ b :: rest)
    (at_ : start = before.length + 1) (initStyle : Style) (context : Context) :
    d.machineAt start initStyle context =
      Machine.startAt initStyle (d.text.drop start) (some b) true context := by
  have charAt : d.charAt ((start : Int) - 1) = some b := by
    rw [Document.charAt, if_pos (by omega), at_, cut]
    simp
  simp only [machineAt, charAt, startOf_lineAt d member]
  rfl

namespace ScannedTo

variable {o : ScanOptions} {d : Document} {start : Nat}

/-- The style before a line is the one in which the scan from the front has come to it. -/
theorem styleBefore_eq (h : d.ScannedTo o start) (positive : 0 < start)
    (short : (Machine.scanned o start d.text).runLength ≠ 0) :
    d.styleBefore start = (Machine.scanned o start d.text).style := by
  obtain ⟨k, length⟩ := Nat.exists_eq_succ_of_ne_zero short
  have size := Machine.length_latest_scanned (o := o) h.fits
  have found : (d.styles.take start)[start - 1]? = d.styles[start - 1]? :=
    List.getElem?_take_of_lt (by omega)
  rw [styleBefore_eq_getD, if_neg (by omega), ← found, h.styles_take, Machine.styles_eq,
    List.getElem?_reverse (by omega), size, Machine.latest, length, List.replicate_succ,
    List.cons_append, show start - 1 - (start - 1) = 0 by omega]
  rfl

theorem getElem?_lastLine {α : Type} {data : List α} {f : LineData → α} {line : LineData}
    {older : List LineData} {count : Nat} (length : (line :: older).length = count)
    (taken : data.take count = (line :: older).reverse.map f) :
    data[count - 1]? = some (f line) := by
  have found : (data.take count)[count - 1]? = data[count - 1]? :=
    List.getElem?_take_of_lt (by simp at length; omega)
  rw [← found, taken, ← length]
  simp

/-- Behind a finished line the document restores what the scan from the front has there. -/
theorem restored (h : d.ScannedTo o start) (member : start ∈ lineStarts d.text)
    (positive : 0 < start) (recorded : Machine.Recorded o (Machine.scanned o start d.text)) :
    ∃ context, d.contextAt start (Machine.scanned o start d.text).style = .ok context ∧
      Context.Restored o (Machine.scanned o start d.text).style
        (Machine.scanned o start d.text).context context := by
  have steady := Machine.steady_scanned o start d.text
  obtain ⟨line, older, lines, state, level⟩ := recorded.data
  have length := (Machine.lines_scanned o start d.text).1
  have lineStates := h.lineStates_take
  have foldLevels := h.foldLevels_take
  rw [lines] at length lineStates foldLevels
  rw [finishedLines_lineStart member] at length lineStates foldLevels
  have lineAt : (d.lineAt start).toNat = lineEnds start d.text := by
    rw [lineAt_eq, Int.toNat_natCast]
  -- The line above is the one that was finished last.
  have found := getElem?_lastLine length lineStates
  rw [← lineAt] at found
  have some : 0 < (d.lineAt start).toNat := by
    rw [lineAt, ← length]
    exact Nat.succ_pos _
  refine ⟨_, d.contextAt_lineStart _ positive some found, ?_⟩
  have carried (fold : o.fold = true) :
      d.carriedInto start = (Machine.scanned o start d.text).context.foldHere := by
    have found := getElem?_lastLine length (foldLevels fold)
    rw [carriedInto, lineAt, found, Option.getD_some, level fold]
  have styles : (d.styles.take start).reverse = (Machine.scanned o start d.text).latest := by
    rw [h.styles_take, Machine.styles_eq, List.reverse_reverse]
  rw [state, steady.sound.restore_pack, d.lastSignificant_eq h.fits h.styles, styles,
    steady.behind]
  exact {
    inValue := rfl
    inBrackets := rfl
    mathDepth := rfl
    parenDepth := rfl
    selectorDepth := rfl
    interpolation := rfl
    mathPending := rfl
    foldHere := fun fold => (carried fold).symm
    foldNext := fun _ => rfl
    last := fun space => by simp [space] }

/-- A scan from the start of a line finishes what the scan from the front finishes there. -/
theorem resumes (h : d.ScannedTo o start) (member : start ∈ lineStarts d.text) :
    ∃ context, d.contextAt start (d.styleBefore start) = .ok context ∧ ∀ n,
      Machine.Extends (Machine.scanned o start d.text).latest
        (Machine.scanned o start d.text).lines (Machine.scanned o (start + n) d.text)
        (d.scanMachine start n (d.styleBefore start) o context) := by
  rcases Nat.eq_zero_or_pos start with rfl | positive
  -- At the front there is nothing to restore.
  · refine ⟨_, d.contextAt_zero _, fun n => ?_⟩
    have front : d.machineAt 0 (d.styleBefore 0) .initial = Machine.fresh d.text := by
      simp only [machineAt, startOf_lineAt d member]
      rfl
    rw [scanMachine, front, Nat.zero_add]
    exact ⟨(List.append_nil _).symm, (List.append_nil _).symm, rfl⟩
  · obtain ⟨before, b, cut, at_, breaks, last, steady, recorded⟩ :=
      Machine.steady_lineStart o member positive
    -- The line break belongs to the current run, whose style the document holds.
    obtain ⟨-, -, short⟩ := steady.rests (by simpa [steady.previous] using breaks)
    obtain ⟨context, found, restored⟩ := h.restored member positive recorded
    rw [h.styleBefore_eq positive short]
    refine ⟨context, found, fun n => ?_⟩
    have previous : (some b).any isLineBreak = true := breaks
    rw [scanMachine, d.machineAt_lineStart member cut at_, Machine.scanned_add]
    exact steady.extends_restored breaks last previous restored n

end ScannedTo

/-- The document `d'` is scanned up to `n`, and behind that it is as `d` was. -/
structure Advances (o : ScanOptions) (d d' : Document) (n : Nat) : Prop
    extends ScannedTo o d' n where
  text : d'.text = d.text
  styles_drop : d'.styles.drop n = d.styles.drop n
  lineStates_drop : d'.lineStates.drop (finishedLines n d.text) =
    d.lineStates.drop (finishedLines n d.text)
  foldLevels_drop : d'.foldLevels.drop (finishedLines n d.text) =
    d.foldLevels.drop (finishedLines n d.text)

theorem overlay_extends {α : Type} {data old : List α} {first count : Nat} (new : List α)
    (total : first + new.length = count) (fits : count ≤ data.length)
    (taken : data.take first = old) :
    (overlay first new data).take count = old ++ new ∧
      (overlay first new data).drop count = data.drop count := by
  have le : first ≤ data.length := by omega
  have cut := @take_overlay α first new data le
  have behind := @drop_overlay α first new data le
  rw [total] at cut behind
  exact ⟨by rw [cut, taken], behind⟩

/-- A scan from the start of a line brings a scanned document further. -/
theorem ScannedTo.scanFrom {o : ScanOptions} {d : Document} {start n : Nat}
    (h : d.ScannedTo o start) (member : start ∈ lineStarts d.text)
    (fits : start + n ≤ d.text.length) {context : Context}
    (extends_ : Machine.Extends (Machine.scanned o start d.text).latest
      (Machine.scanned o start d.text).lines (Machine.scanned o (start + n) d.text)
      (d.scanMachine start n (d.styleBefore start) o context)) :
    Advances o d (d.scanFrom start n (d.styleBefore start) o context).1 (start + n) := by
  have regular := h.toRegular.scanFrom fits (d.styleBefore start) context
  have stylesWritten := d.styles_scanFrom start n (d.styleBefore start) o context
  have statesWritten := d.lineStates_scanFrom start n (d.styleBefore start) o context
  have levelsWritten := d.foldLevels_scanFrom start n (d.styleBefore start) o context
  obtain ⟨latest, lines, -⟩ := extends_
  generalize d.scanMachine start n (d.styleBefore start) o context = m at *
  have styleCount := congrArg List.length latest
  have lineCount := congrArg List.length lines
  rw [List.length_append, Machine.length_latest_scanned fits,
    Machine.length_latest_scanned h.fits] at styleCount
  rw [List.length_append, (Machine.lines_scanned o (start + n) d.text).1,
    (Machine.lines_scanned o start d.text).1] at lineCount
  have first : (d.lineAt start).toNat = finishedLines start d.text := by
    rw [lineAt_eq, Int.toNat_natCast, finishedLines_lineStart member]
  rw [first] at statesWritten levelsWritten
  have lineFits : finishedLines (start + n) d.text ≤ d.lineCount := finishedLines_le_length fits
  have styles := overlay_extends m.latest.reverse (by rw [List.length_reverse]; omega)
    (h.styles ▸ fits) h.styles_take
  have lineStates := overlay_extends (m.lines.reverse.map fun line => Value.int line.state)
    (by rw [List.length_map, List.length_reverse]; omega) (h.lineStates ▸ lineFits)
    h.lineStates_take
  have foldLevels (fold : o.fold = true) :=
    overlay_extends (m.lines.reverse.map fun line => line.fold.map Int.ofNat)
      (by rw [List.length_map, List.length_reverse]; omega) (h.foldLevels ▸ lineFits)
      (h.foldLevels_take fold)
  -- Both records are kept the latest first, and written in order.
  have styled : (Machine.scanned o start d.text).styles ++ m.latest.reverse =
      (Machine.scanned o (start + n) d.text).styles := by
    rw [Machine.styles_eq, Machine.styles_eq, latest, List.reverse_append]
  have mapped {α : Type} (f : LineData → α) :
      (Machine.scanned o start d.text).lines.reverse.map f ++ m.lines.reverse.map f =
        (Machine.scanned o (start + n) d.text).lines.reverse.map f := by
    rw [lines, List.reverse_append, List.map_append]
  rw [← stylesWritten] at styles
  rw [← statesWritten] at lineStates
  exact { regular with
    text := rfl
    fits := fits
    styles_take := styles.1.trans styled
    lineStates_take := lineStates.1.trans (mapped _)
    foldLevels_take := by
      intro fold
      rw [levelsWritten, if_pos fold]
      exact (foldLevels fold).1.trans (mapped _)
    styles_drop := styles.2
    lineStates_drop := lineStates.2
    foldLevels_drop := by
      rw [levelsWritten]
      split
      next fold => exact (foldLevels fold).2
      next => rfl }

namespace Advances

variable {o : ScanOptions} {d d' d'' : Document} {n k : Nat}

theorem trans (h : Advances o d d' n) (h' : Advances o d' d'' k) (le : n ≤ k) :
    Advances o d d'' k := by
  have lines : finishedLines n d.text ≤ finishedLines k d.text := by
    rw [← Nat.add_sub_cancel' le, finishedLines_add]
    exact Nat.le_add_right _ _
  have further {α : Type} {a b : Nat} {data data' : List α} (le : a ≤ b)
      (same : data.drop a = data'.drop a) : data.drop b = data'.drop b := by
    rw [← Nat.add_sub_cancel' le, ← List.drop_drop, same, List.drop_drop]
  have lineStates := h'.lineStates_drop
  have foldLevels := h'.foldLevels_drop
  rw [h.text] at lineStates foldLevels
  exact { h'.toScannedTo with
    text := h'.text.trans h.text
    styles_drop := h'.styles_drop.trans (further le h.styles_drop)
    lineStates_drop := lineStates.trans (further lines h.lineStates_drop)
    foldLevels_drop := foldLevels.trans (further lines h.foldLevels_drop) }

theorem unique (h : Advances o d d' n) (h' : Advances o d d'' n) : d' = d'' := by
  have joined {α : Type} {k : Nat} {data data' : List α} (front : data.take k = data'.take k)
      (back : data.drop k = data'.drop k) : data = data' := by
    rw [← List.take_append_drop k data, front, back, List.take_append_drop]
  have styles := h.styles_take
  have styles' := h'.styles_take
  have lineStates := h.lineStates_take
  have lineStates' := h'.lineStates_take
  have foldLevels := h.foldLevels_take
  have foldLevels' := h'.foldLevels_take
  rw [h.text] at styles lineStates foldLevels
  rw [h'.text] at styles' lineStates' foldLevels'
  -- Without folding nothing is written to the levels, which are all absent.
  have levels : d'.foldLevels = d''.foldLevels := by
    cases fold : o.fold with
    | true =>
      exact joined ((foldLevels fold).trans (foldLevels' fold).symm)
        (h.foldLevels_drop.trans h'.foldLevels_drop.symm)
    | false =>
      exact h.toRegular.foldLevels_eq h'.toRegular (h.text.trans h'.text.symm) fold
  cases d' with
  | mk _ _ _ _ =>
    cases d'' with
    | mk _ _ _ _ =>
      exact (mk.injEq ..).mpr ⟨h.text.trans h'.text.symm,
        joined (styles.trans styles'.symm) (h.styles_drop.trans h'.styles_drop.symm), levels,
        joined (lineStates.trans lineStates'.symm)
          (h.lineStates_drop.trans h'.lineStates_drop.symm)⟩

end Advances

end Document

end CssHighlight
