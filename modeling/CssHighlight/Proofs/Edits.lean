import CssHighlight.Document.Edit
import CssHighlight.Proofs.Scanned

/-!
# Edits

An edit leaves everything above its line as it is: the styles of the characters there, and the data
of the lines.
-/
namespace CssHighlight

/-- The text from `start` up to `stop` is replaced. -/
structure Edit where
  start : Nat
  stop : Nat
  inserted : List Char
  deriving DecidableEq, Repr

namespace Edit

def apply (e : Edit) (text : List Char) : List Char :=
  text.take e.start ++ e.inserted ++ text.drop e.stop

/-- The range of the edit lies inside the text. -/
structure Fits (e : Edit) (text : List Char) : Prop where
  ordered : e.start ≤ e.stop
  inside : e.stop ≤ text.length

/-- The start of the line that holds the start of the edit, in the edited text. -/
def restart (e : Edit) (text : List Char) : Nat :=
  lineStart (lineStarts (e.apply text)) (e.apply text).length
    (lineOf (lineStarts (e.apply text)) e.start)

/-- The number of that line. -/
def line (e : Edit) (text : List Char) : Nat :=
  (lineOf (lineStarts (e.apply text)) e.start).toNat

variable {e : Edit} {text : List Char}

theorem Fits.length_apply (h : e.Fits text) :
    (e.apply text).length = e.start + e.inserted.length + (text.length - e.stop) := by
  have ordered := h.ordered
  have inside := h.inside
  simp only [apply, List.length_append, List.length_take, List.length_drop]
  omega

theorem Fits.take_apply (h : e.Fits text) {n : Nat} (le : n ≤ e.start) :
    (e.apply text).take n = text.take n := by
  have bound : n ≤ (text.take e.start).length := by
    have ordered := h.ordered
    have inside := h.inside
    rw [List.length_take]
    omega
  rw [apply, List.append_assoc, List.take_append_of_le_length bound, List.take_take,
    Nat.min_eq_left le]

theorem restart_spec (e : Edit) (text : List Char) :
    e.restart text ∈ lineStarts (e.apply text) ∧ e.restart text ≤ e.start ∧
      lineEnds (e.restart text) (e.apply text) = lineEnds e.start (e.apply text) := by
  obtain ⟨start, member, below, same, found⟩ := exists_lineStart e.start (e.apply text)
  rw [restart, found]
  exact ⟨member, below, same⟩

theorem line_eq (e : Edit) (text : List Char) :
    e.line text = lineEnds (e.restart text) (e.apply text) := by
  rw [line, lineOf_lineStarts, Int.toNat_natCast, (e.restart_spec text).2.2]

end Edit

namespace Document

section Realign

variable {α : Type} {data : List α} {kept moved count : Nat} {fresh : α}

theorem length_realign (front : kept ≤ data.length)
    (fits : kept + (data.length - moved) ≤ count) :
    (realign data kept moved count fresh).length = count := by
  simp only [realign, List.length_append, List.length_take, List.length_replicate,
    List.length_drop]
  omega

theorem take_realign {n : Nat} (le : n ≤ kept) (fits : n ≤ data.length) :
    (realign data kept moved count fresh).take n = data.take n := by
  have bound : n ≤ (data.take kept).length := by
    rw [List.length_take]
    omega
  rw [realign, List.append_assoc, List.take_append_of_le_length bound, List.take_take,
    Nat.min_eq_left le]

theorem mem_realign {item : α} (member : item ∈ realign data kept moved count fresh) :
    item ∈ data ∨ item = fresh := by
  simp only [realign, List.mem_append, List.mem_replicate] at member
  rcases member with (front | ⟨-, same⟩) | back
  · exact .inl (List.mem_of_mem_take front)
  · exact .inr same
  · exact .inl (List.mem_of_mem_drop back)

end Realign

/-- How many lines keep their data in front of an edit. -/
def linesKept (d : Document) (e : Edit) : Nat :=
  min (lineEnds e.start d.text) (lineEnds e.start (e.apply d.text)) + 1

/-- The document with the edited text, which is not scanned again yet. -/
def edited (d : Document) (e : Edit) : Document where
  text := e.apply d.text
  styles := d.styles.take e.start ++ e.inserted.map (fun _ => Style.default) ++ d.styles.drop e.stop
  foldLevels := realign d.foldLevels (d.linesKept e) (lineEnds e.stop d.text + 1)
    (lineStarts (e.apply d.text)).length none
  lineStates := realign d.lineStates (d.linesKept e) (lineEnds e.stop d.text + 1)
    (lineStarts (e.apply d.text)).length (.int 0)

theorem replace_eq (d : Document) {e : Edit} (fits : e.Fits d.text) :
    d.replace e.start e.stop e.inserted = .ok (d.edited e) := by
  have ordered := fits.ordered
  have inside := fits.inside
  have kept : (min (lineEnds e.start d.text : Int) (lineEnds e.start (e.apply d.text))).toNat =
      min (lineEnds e.start d.text) (lineEnds e.start (e.apply d.text)) := by
    omega
  unfold Document.replace
  rw [if_pos (by simp only [Document.length]; omega)]
  simp only [Edit.apply] at kept
  simp only [Int.toNat_natCast, lineAt_eq, Edit.apply, lineOf_lineStarts, kept, linesKept, edited]

/-- The lines that keep their data, those that move and those that are fresh are all there are. -/
theorem linesKept_bounds (d : Document) {e : Edit} (fits : e.Fits d.text) :
    e.line d.text ≤ d.linesKept e ∧ d.linesKept e ≤ d.lineCount ∧
      d.linesKept e + (d.lineCount - (lineEnds e.stop d.text + 1)) ≤ (d.edited e).lineCount := by
  have ordered := fits.ordered
  have inside := fits.inside
  have shared : d.text.take e.start = (e.apply d.text).take e.start :=
    (fits.take_apply (Nat.le_refl _)).symm
  -- A line break that the edit splits or joins moves the edited line by one.
  have above := lineEnds_le_of_take_eq shared
  have restart := (e.restart_spec d.text).2.2
  -- Behind the edit both texts have the same line breaks.
  have whole : lineEnds d.text.length d.text =
      lineEnds e.stop d.text + lineEnds (d.text.length - e.stop) (d.text.drop e.stop) := by
    rw [← lineEnds_add, Nat.add_sub_cancel' inside]
  have behind : (e.apply d.text).drop (e.start + e.inserted.length) = d.text.drop e.stop := by
    refine List.drop_left' ?_
    rw [List.length_append, List.length_take, Nat.min_eq_left (Nat.le_trans ordered inside)]
  have whole' : lineEnds (e.apply d.text).length (e.apply d.text) =
      lineEnds (e.start + e.inserted.length) (e.apply d.text) +
        lineEnds (d.text.length - e.stop) (d.text.drop e.stop) := by
    rw [fits.length_apply, lineEnds_add, behind]
  have before := lineEnds_mono (Nat.le_add_right e.start e.inserted.length) (e.apply d.text)
  have beforeStop := lineEnds_mono (Nat.le_trans ordered inside) d.text
  have count : (d.edited e).lineCount = lineEnds (e.apply d.text).length (e.apply d.text) + 1 :=
    length_lineStarts (e.apply d.text)
  rw [e.line_eq, count, lineCount_eq, linesKept]
  omega

theorem Sized.edited {d : Document} (h : d.Sized) {e : Edit} (fits : e.Fits d.text) :
    (d.edited e).Sized := by
  obtain ⟨-, front, total⟩ := d.linesKept_bounds fits
  have ordered := fits.ordered
  have inside := fits.inside
  exact {
    styles := by
      simp only [Document.edited, List.length_append, List.length_take, List.length_map,
        List.length_drop, h.styles, fits.length_apply]
      omega
    foldLevels := length_realign (h.foldLevels ▸ front) (h.foldLevels ▸ total)
    lineStates := length_realign (h.lineStates ▸ front) (h.lineStates ▸ total) }

theorem Regular.edited {o : ScanOptions} {d : Document} (h : d.Regular o) {e : Edit}
    (fits : e.Fits d.text) : (d.edited e).Regular o :=
  { h.toSized.edited fits with
    stored := by
      intro state member
      rcases mem_realign member with old | rfl
      · exact h.stored state old
      · exact ⟨0, rfl⟩
    unfolded := by
      intro unfolded level member
      rcases mem_realign member with old | rfl
      · exact h.unfolded unfolded level old
      · rfl }

/-! ### What stands above a line -/

/-- Two documents have the same styles before a position, and the same data for the lines above a
line. -/
structure SameAbove (position line : Nat) (d d' : Document) : Prop where
  styles : d.styles.take position = d'.styles.take position
  foldLevels : d.foldLevels.take line = d'.foldLevels.take line
  lineStates : d.lineStates.take line = d'.lineStates.take line

namespace SameAbove

variable {position line : Nat} {d d' d'' : Document}

theorem symm (h : SameAbove position line d d') : SameAbove position line d' d :=
  ⟨h.styles.symm, h.foldLevels.symm, h.lineStates.symm⟩

theorem trans (h : SameAbove position line d d') (h' : SameAbove position line d' d'') :
    SameAbove position line d d'' :=
  ⟨h.styles.trans h'.styles, h.foldLevels.trans h'.foldLevels, h.lineStates.trans h'.lineStates⟩

end SameAbove

/-- An edit leaves what stands above its line. -/
theorem Sized.sameAbove_edited {d : Document} (h : d.Sized) {e : Edit} (fits : e.Fits d.text) :
    SameAbove (e.restart d.text) (e.line d.text) d (d.edited e) := by
  obtain ⟨above, front, -⟩ := d.linesKept_bounds fits
  obtain ⟨-, below, -⟩ := e.restart_spec d.text
  have ordered := fits.ordered
  have inside := fits.inside
  exact {
    styles := by
      have bound : e.restart d.text ≤ (d.styles.take e.start).length := by
        rw [List.length_take, h.styles]
        omega
      rw [Document.edited, List.append_assoc, List.take_append_of_le_length bound, List.take_take,
        Nat.min_eq_left below]
    foldLevels := (take_realign above (by rw [h.foldLevels]; omega)).symm
    lineStates := (take_realign above (by rw [h.lineStates]; omega)).symm }

/-- A scan from the start of a line leaves what stands above it. -/
theorem Sized.sameAbove_scanFrom {d : Document} (h : d.Sized) {start : Nat}
    (member : start ∈ lineStarts d.text) (n : Nat) (initStyle : Style) (o : ScanOptions)
    (context : Context) :
    SameAbove start (lineEnds start d.text) d (d.scanFrom start n initStyle o context).1 := by
  have first : (d.lineAt start).toNat = lineEnds start d.text := by
    rw [lineAt_eq, Int.toNat_natCast]
  have inside : lineEnds start d.text ≤ d.lineCount :=
    Nat.le_of_lt (lineEnds_lt_length start d.text)
  exact {
    styles := by
      rw [styles_scanFrom,
        take_start_overlay (h.styles ▸ le_length_of_mem_lineStarts member)]
    foldLevels := by
      rw [foldLevels_scanFrom, first]
      split
      next => rw [take_start_overlay (h.foldLevels ▸ inside)]
      next => rfl
    lineStates := by
      rw [lineStates_scanFrom, first, take_start_overlay (h.lineStates ▸ inside)] }

/-- The context of a line can be restored where the line state above it is a number. -/
theorem Regular.contextAt {o : ScanOptions} {d : Document} (h : d.Regular o) {start : Nat}
    (member : start ∈ lineStarts d.text) (initStyle : Style) :
    ∃ context, d.contextAt start initStyle = .ok context := by
  rcases Nat.eq_zero_or_pos start with rfl | positive
  · exact ⟨_, d.contextAt_zero initStyle⟩
  · have line : (d.lineAt start).toNat = lineEnds start d.text := by
      rw [lineAt_eq, Int.toNat_natCast]
    have some := lineEnds_pos member positive
    have inside : lineEnds start d.text < d.lineCount := lineEnds_lt_length start d.text
    have found : (d.lineAt start).toNat - 1 < d.lineStates.length := by
      rw [line, h.lineStates]
      omega
    obtain ⟨state, stored⟩ := h.stored _ (List.getElem_mem found)
    exact ⟨_, d.contextAt_lineStart initStyle positive (line ▸ some)
      (List.getElem?_eq_some_iff.mpr ⟨found, stored⟩)⟩

end Document

end CssHighlight
