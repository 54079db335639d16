import CssHighlight.Proofs.Lockstep
import CssHighlight.Proofs.Restart

/-!
# Variants of a scan

What may differ between two scans without a difference in what they find. Keyword lists and folding
only recolour: they choose between styles of one family. Dialects agree on a text that has nothing
of their own syntax, and the case of ASCII letters never matters.
-/
namespace CssHighlight

/-! ### What recoloured scans share -/

theorem Style.family_shade (o o' : ScanOptions) (style : Style) :
    (style.shade o o').family = style.family := by
  unfold Style.shade
  split
  · rfl
  · cases style <;> rfl

/-- Line states that are the same outside those bits have all other bits in common. -/
theorem LineState.testBit_eq_of_outsideMath {a b : Nat} (same : outsideMath a = outsideMath b)
    {bit : Nat} (outside : bit < 2 ∨ 7 < bit) : a.testBit bit = b.testBit bit := by
  unfold outsideMath at same
  rcases outside with low | high
  · have rests : a % 2 ^ 2 = b % 2 ^ 2 := by omega
    have bits := congrArg (Nat.testBit · bit) rests
    simpa only [Nat.testBit_mod_two_pow, low, decide_true, Bool.true_and] using bits
  · have quotients : a / 2 ^ 8 = b / 2 ^ 8 := by omega
    have bits := congrArg (Nat.testBit · (bit - 8)) quotients
    simpa only [Nat.testBit_div_two_pow, Nat.sub_add_cancel high] using bits

theorem LineState.outsideMath_idem (state : Nat) :
    outsideMath (outsideMath state) = outsideMath state := by
  unfold outsideMath
  omega

/-! ### Texts without a dialect's own syntax -/

/-- Of what only the dialect reads, the text has nothing. -/
def Dialect.Unused : Dialect → List Char → Prop
  | .standard, _ => True
  | .hss, text => ∀ c, ['$', c] <:+: text → isAfterLeader c = false
  | .scss, text => '$' ∉ text ∧ '%' ∉ text ∧ ¬['#', '{'] <:+: text
  | .less, text => '$' ∉ text ∧ '@' ∉ text

theorem Dialect.Unused.agreeOn {dialect : Dialect} {text : List Char}
    (unused : dialect.Unused text) : dialect.AgreeOn .standard text := by
  cases dialect with
  | standard => exact .refl .standard text
  | hss =>
    constructor
    · intro c pair follows
      rw [unused c pair] at follows
      cases follows
    all_goals simp
  | scss =>
    obtain ⟨dollar, percent, hash⟩ := unused
    constructor
    · intro c pair
      exact absurd (pair.subset List.mem_cons_self) dollar
    · exact fun member => absurd member dollar
    · exact fun member => absurd member percent
    · exact fun pair => absurd pair hash
    · simp
  | less =>
    obtain ⟨dollar, at_⟩ := unused
    constructor
    · intro c pair
      exact absurd (pair.subset List.mem_cons_self) dollar
    · simp
    · simp
    · simp
    · exact fun member => absurd member at_

/-! ### What parallel machines have written -/

namespace Machine.Parallel

variable {o o' : ScanOptions} {whole text text' : List Char} {m m' : Machine}

/-- In front of their texts two scans are in parallel. -/
theorem startAt (same : SameLetters text text') (style : Style)
    (atRule : style = .atRule → (o.dialect = .less ↔ o'.dialect = .less)) (line : Bool) :
    Parallel o o' text text text' (Machine.startAt style text none line .initial)
      (Machine.startAt style text' none line .initial) where
  ahead := same
  inside := List.suffix_rfl
  style := .inl rfl
  atRule := atRule
  runText := same
  runLength := rfl
  held := rfl
  after := rfl
  waits := by rintro ⟨⟩
  previous := rfl
  behind := by rintro _ ⟨⟩
  atLineStart := rfl
  context := .initial o o' text
  painted := rfl
  lines := rfl

theorem latest_family (h : Parallel o o' whole text text' m m') :
    m.latest.map Style.family = m'.latest.map Style.family := by
  have families := congrArg (List.map Style.family) h.latest
  simpa only [List.map_map, Function.comp_def, Style.family_shade] using families

/-- Scans with the same keyword lists give the same styles. -/
theorem latest_eq (h : Parallel o o' whole text text' m m') (keywords : o.keywords = o'.keywords) :
    m.latest = m'.latest := by
  have same : Style.shade o o' = id := funext fun style => if_pos keywords
  simpa only [same, List.map_id] using h.latest

/-- Scans that both fold, or both do not, record the same fold levels. -/
theorem folds_eq (h : Parallel o o' whole text text' m m') (fold : o.fold = o'.fold) :
    m.lines.map LineData.fold = m'.lines.map LineData.fold := by
  have folds := congrArg (List.map LineData.fold) h.lines
  simpa only [List.map_map, Function.comp_def, LineData.shade, fold, if_true] using folds

theorem states_outsideMath (h : Parallel o o' whole text text' m m') :
    (m.lines.map LineData.state).map LineState.outsideMath =
      (m'.lines.map LineData.state).map LineState.outsideMath := by
  have shade (line : LineData) : LineState.outsideMath (line.shade o o').state =
      LineState.outsideMath line.state := by
    dsimp only [LineData.shade]
    split
    · rfl
    · exact LineState.outsideMath_idem line.state
  have states := congrArg (List.map fun line => LineState.outsideMath line.state) h.lines
  simpa only [List.map_map, Function.comp_def, shade] using states

/-- Scans with the same keyword lists record the same line states. -/
theorem states_eq (h : Parallel o o' whole text text' m m') (keywords : o.keywords = o'.keywords) :
    m.lines.map LineData.state = m'.lines.map LineData.state := by
  have states := congrArg (List.map LineData.state) h.lines
  simpa only [List.map_map, Function.comp_def, LineData.shade, keywords, if_true] using states

end Machine.Parallel

/-! ### Documents -/

namespace Document

theorem map_overlay {α β : Type} (f : α → β) (start : Nat) (items old : List α) :
    (overlay start items old).map f = overlay start (items.map f) (old.map f) := by
  simp only [overlay, List.map_append, List.map_take, List.map_drop, List.length_map]

/-- Items for the whole list leave nothing of the old ones. -/
theorem overlay_all {α : Type} {items old : List α} (length : items.length = old.length) :
    overlay 0 items old = items := by
  simp [overlay, length]

theorem map_itemAt {α β : Type} (f : α → β) (items : List α) (position : Int) :
    (itemAt items position).map f = itemAt (items.map f) position := by
  unfold itemAt
  rw [List.length_map]
  cases index? items.length position with
  | none => rfl
  | some i =>
    simp only [Option.bind_some, List.getElem?_map]
    cases items[i]? <;> rfl

/-- A document `f` that holds what a machine has written from the front of `d` on. -/
structure WrittenFrom (o : ScanOptions) (d : Document) (m : Machine) (f : Document) : Prop where
  text : f.text = d.text
  styles : f.styles = overlay 0 m.latest.reverse d.styles
  foldLevels : f.foldLevels =
    if o.fold then overlay 0 (m.lines.map fun line => line.fold.map Int.ofNat).reverse d.foldLevels
    else d.foldLevels
  lineStates : f.lineStates =
    overlay 0 (m.lines.map fun line => Value.int line.state).reverse d.lineStates

/-- A scan from the front takes place, and starts outside of everything. -/
theorem scan_front {p : Place} {s : ScanSetup} {o : ScanOptions} (options : s.options p = .ok o)
    (d : Document) {n : Nat} (fits : n ≤ d.text.length) (initStyle : Style) :
    ∃ f r, d.scan p s 0 n initStyle = .ok (f, r) ∧ (d.Sized → f.Sized) ∧ WrittenFrom o d
      ((Machine.startAt initStyle d.text none true .initial).run o n d.text) f := by
  have line : d.lineAt (0 : Nat) = 0 := lineOf_lineStarts 0 d.text
  have machine : d.scanMachine 0 n initStyle o .initial =
      (Machine.startAt initStyle d.text none true .initial).run o n d.text := by
    simp only [scanMachine, machineAt, startOf_lineAt d List.mem_cons_self]
    rfl
  have range : 0 + n ≤ d.text.length := by omega
  refine ⟨_, _, scan_eq options d range (d.contextAt_zero initStyle),
    fun sized => sized.scanFrom range initStyle o .initial, ⟨rfl, ?_, ?_, ?_⟩⟩
  · exact machine ▸ styles_scanFrom d 0 n initStyle o .initial
  · have levels := foldLevels_scanFrom d 0 n initStyle o .initial
    rwa [machine, line, List.map_reverse] at levels
  · have states := lineStates_scanFrom d 0 n initStyle o .initial
    rwa [machine, line, List.map_reverse] at states

/-- Documents that hold the same data beside their texts. -/
structure SameData (d d' : Document) : Prop where
  styles : d.styles = d'.styles
  foldLevels : d.foldLevels = d'.foldLevels
  lineStates : d.lineStates = d'.lineStates

theorem SameData.eq {d d' : Document} (h : SameData d d') (text : d.text = d'.text) : d = d' := by
  cases d
  cases d'
  rw [Document.mk.injEq]
  exact ⟨text, h.styles, h.foldLevels, h.lineStates⟩

namespace WrittenFrom

variable {o o' : ScanOptions} {whole text text' : List Char} {m m' : Machine}
  {d d' f f' : Document}

/-- Styles for all characters leave nothing of the old ones. -/
theorem styles_eq (h : WrittenFrom o d m f) {styles : List Style}
    (latest : m.latest = styles.reverse) (length : styles.length = d.styles.length) :
    f.styles = styles := by
  rw [h.styles, latest, List.reverse_reverse, overlay_all length]

theorem families_eq (h : WrittenFrom o d m f) (h' : WrittenFrom o' d' m' f')
    (parallel : Machine.Parallel o o' whole text text' m m') (same : d.styles = d'.styles) :
    f.styles.map Style.family = f'.styles.map Style.family := by
  rw [h.styles, h'.styles, map_overlay, map_overlay, List.map_reverse, List.map_reverse,
    parallel.latest_family, same]

theorem foldLevels_eq (h : WrittenFrom o d m f) (h' : WrittenFrom o' d' m' f')
    (parallel : Machine.Parallel o o' whole text text' m m') (fold : o.fold = o'.fold)
    (same : d.foldLevels = d'.foldLevels) : f.foldLevels = f'.foldLevels := by
  have folds := congrArg (List.map (Option.map Int.ofNat)) (parallel.folds_eq fold)
  simp only [List.map_map, Function.comp_def] at folds
  rw [h.foldLevels, h'.foldLevels, fold, folds, same]

/-- Scans that have the keyword lists and folding in common write the same. -/
theorem sameData (h : WrittenFrom o d m f) (h' : WrittenFrom o' d' m' f')
    (parallel : Machine.Parallel o o' whole text text' m m') (keywords : o.keywords = o'.keywords)
    (fold : o.fold = o'.fold) (same : SameData d d') : SameData f f' where
  styles := by rw [h.styles, h'.styles, parallel.latest_eq keywords, same.styles]
  foldLevels := h.foldLevels_eq h' parallel fold same.foldLevels
  lineStates := by
    have states := congrArg (List.map fun state : Nat => Value.int state)
      (parallel.states_eq keywords)
    simp only [List.map_map, Function.comp_def] at states
    rw [h.lineStates, h'.lineStates, states, same.lineStates]

end WrittenFrom

/-! ### Whole texts -/

/-- The styles of a text that was scanned to its end. -/
theorem WrittenFrom.styles_scanned {o : ScanOptions} {text : List Char} {f : Document}
    (h : WrittenFrom o (ofChars text) (Machine.scanned o text.length text) f) :
    f.styles = (Machine.scanned o text.length text).styles := by
  rw [h.styles, Machine.styles_eq, overlay_all]
  simp [ofChars, Machine.length_latest_scanned]

/-- Texts with equally many lines, of which scans finished the same ones, have the same fold levels
and line states. -/
theorem WrittenFrom.lineData_eq {o : ScanOptions} {text text' : List Char} {m m' : Machine}
    {f f' : Document} (h : WrittenFrom o (ofChars text) m f)
    (h' : WrittenFrom o (ofChars text') m' f') (lines : m.lines = m'.lines)
    (count : (lineStarts text).length = (lineStarts text').length) :
    f.foldLevels = f'.foldLevels ∧ f.lineStates = f'.lineStates := by
  have constant {α : Type} (item : α) :
      ((lineStarts text).map fun _ => item) = (lineStarts text').map fun _ => item := by
    rw [List.map_const', List.map_const', count]
  rw [h.foldLevels, h'.foldLevels, h.lineStates, h'.lineStates, lines]
  simp only [ofChars, constant, and_self]

theorem scanAll_written {p : Place} {s : ScanSetup} {o : ScanOptions}
    (options : s.options p = .ok o) (text : List Char) :
    ∃ d r, (ofChars text).scanAll p s = .ok (d, r) ∧ d.Sized ∧
      WrittenFrom o (ofChars text) (Machine.scanned o text.length text) d := by
  obtain ⟨d, r, scanned, sized, written⟩ :=
    scan_front options (ofChars text) (Nat.le_refl _) .default
  exact ⟨d, r, scanned, sized (sized_ofChars text), written⟩

/-! ### Keyword lists and folding -/

variable {p p' : Place} {s s' : ScanSetup} {o o' : ScanOptions}

/-- The line states of a text that was scanned from the front, as numbers. -/
theorem WrittenFrom.lineStates_ofChars {text : List Char} {m : Machine} {f : Document}
    (h : WrittenFrom o (ofChars text) m f) : f.lineStates =
      (overlay 0 (m.lines.map LineData.state).reverse ((lineStarts text).map fun _ => 0)).map
        fun state : Nat => Value.int state := by
  rw [h.lineStates, map_overlay, List.map_reverse, List.map_map, List.map_map]
  rfl

/-- Parallel scans leave line states that differ at most in the bits of the depth in math
functions. -/
theorem WrittenFrom.lineStates_agree {text whole rest rest' : List Char} {m m' : Machine}
    {f f' : Document} (h : WrittenFrom o (ofChars text) m f)
    (h' : WrittenFrom o' (ofChars text) m' f')
    (parallel : Machine.Parallel o o' whole rest rest' m m') {line : Nat}
    (below : line < f.lineStates.length) :
    ∃ state state' : Nat, f.lineStates[line]? = some (.int state) ∧
      f'.lineStates[line]? = some (.int state') ∧
      LineState.outsideMath state = LineState.outsideMath state' := by
  rw [h.lineStates_ofChars] at below ⊢
  rw [h'.lineStates_ofChars]
  generalize numbers : overlay 0 (m.lines.map LineData.state).reverse
    ((lineStarts text).map fun _ => 0) = states at below ⊢
  generalize numbers' : overlay 0 (m'.lines.map LineData.state).reverse
    ((lineStarts text).map fun _ => 0) = states'
  have same : states.map LineState.outsideMath = states'.map LineState.outsideMath := by
    rw [← numbers, ← numbers', map_overlay, map_overlay, List.map_reverse, List.map_reverse,
      parallel.states_outsideMath]
  rw [List.length_map] at below
  have at_ := congrArg (·[line]?) same
  simp only [List.getElem?_map, List.getElem?_eq_getElem below, Option.map_some] at at_ ⊢
  obtain ⟨state', found, agree⟩ := Option.map_eq_some_iff.mp at_.symm
  exact ⟨_, state', rfl, by rw [found]; rfl, agree.symm⟩

/-- Scans from the front of one text that differ in folding and in other keyword lists than that of
pseudo-classes give styles of the same families, line states that differ at most in the bits of the
depth in math functions, and, where both fold, the same fold levels. -/
theorem scan_recolours (options : s.options p = .ok o) (options' : s'.options p' = .ok o')
    (dialect : o.dialect = o'.dialect)
    (pseudoClass : o.keywords.pseudoClass = o'.keywords.pseudoClass) (text : List Char) {n : Nat}
    (fits : n ≤ text.length) (initStyle : Style) :
    ∃ d r d' r', (ofChars text).scan p s 0 n initStyle = .ok (d, r) ∧
      (ofChars text).scan p' s' 0 n initStyle = .ok (d', r') ∧
      (∀ position, (d.styleAt position).map Style.family =
        (d'.styleAt position).map Style.family) ∧
      (∀ line : Nat, line < (ofChars text).lineCount → ∃ state state' : Nat,
        d.lineState line = .ok (.int state) ∧ d'.lineState line = .ok (.int state') ∧
          ∀ bit, bit < 2 ∨ 7 < bit → state.testBit bit = state'.testBit bit) ∧
      (o.fold = true → o'.fold = true → d.foldLevels = d'.foldLevels) := by
  obtain ⟨d, r, scanned, sized, written⟩ := scan_front options (ofChars text) fits initStyle
  obtain ⟨d', r', scanned', -, written'⟩ := scan_front options' (ofChars text) fits initStyle
  have akin : o.Akin o' text := ⟨dialect ▸ .refl o.dialect text, pseudoClass⟩
  have atRule : initStyle = .atRule → (o.dialect = .less ↔ o'.dialect = .less) := by simp [dialect]
  have parallel := (Machine.Parallel.startAt (.refl text) initStyle atRule true).run akin n
  refine ⟨d, r, d', r', scanned, scanned', fun position => ?_, fun line below => ?_,
    fun fold fold' => ?_⟩
  · rw [styleAt, styleAt, map_itemAt, map_itemAt, written.families_eq written' parallel rfl]
  · have inside : line < d.lineStates.length := by
      rw [(sized (sized_ofChars text)).lineStates, lineCount, written.text]
      exact below
    obtain ⟨state, state', found, found', agree⟩ :=
      written.lineStates_agree written' parallel inside
    refine ⟨state, state', ?_, ?_, fun _ => LineState.testBit_eq_of_outsideMath agree⟩
    · rw [lineState, itemAt_natCast, found]
    · rw [lineState, itemAt_natCast, found']
  · exact written.foldLevels_eq written' parallel (fold.trans fold'.symm) rfl

/-- A sum in a math function that only one of the scans knows, without folding in the other. -/
theorem scan_recolours_sum :
    let text := ['a', '{', 'b', ':', 'c', 'a', 'l', 'c', '(', '1', ' ', '+', '\n', '2', ')', '}']
    let plain : KeywordSet := { KeywordSet.builtin with mathFunction := default }
    ∃ d r d' r' state state', (ofChars text).scan default {} 0 15 .default = .ok (d, r) ∧
      (ofChars text).scan default ⟨{ fold := .bool false }, plain⟩ 0 15 .default = .ok (d', r') ∧
      (d.styleAt 11).map Style.family = (d'.styleAt 11).map Style.family ∧
      d.lineState (0 : Nat) = .ok (.int (state : Nat)) ∧
      d'.lineState (0 : Nat) = .ok (.int (state' : Nat)) ∧
      state.testBit 8 = state'.testBit 8 := by
  intro text plain
  have options : ScanSetup.options default {} = .ok ⟨.standard, true, .builtin⟩ := rfl
  have options' : ScanSetup.options default ⟨{ fold := .bool false }, plain⟩ =
      .ok ⟨.standard, false, plain⟩ := rfl
  obtain ⟨d, r, d', r', scanned, scanned', styles, states, -⟩ :=
    scan_recolours options options' rfl rfl text (n := 15) (by decide) .default
  obtain ⟨state, state', stored, stored', bits⟩ := states 0 (by decide)
  exact ⟨d, r, d', r', state, state', scanned, scanned', styles 11, stored, stored',
    bits 8 (by decide)⟩

/-! ### Dialects -/

/-- A text that has nothing of the dialect's own syntax is scanned as plain CSS. -/
theorem scanAll_eq_standard (options : s.options p = .ok o) (options' : s'.options p' = .ok o')
    (standard : o'.dialect = .standard) (fold : o.fold = o'.fold)
    (keywords : o.keywords = o'.keywords) (d : Document) (unused : o.dialect.Unused d.text) :
    ∃ f r r', d.scanAll p s = .ok (f, r) ∧ d.scanAll p' s' = .ok (f, r') := by
  obtain ⟨f, r, scanned, -, written⟩ := scan_front options d (Nat.le_refl _) .default
  obtain ⟨f', r', scanned', -, written'⟩ := scan_front options' d (Nat.le_refl _) .default
  have akin : o.Akin o' d.text := ⟨standard ▸ unused.agreeOn, by rw [keywords]⟩
  have parallel := (Machine.Parallel.startAt (.refl d.text) .default (by rintro ⟨⟩) true).run akin
    d.text.length
  have same := written.sameData written' parallel keywords fold ⟨rfl, rfl, rfl⟩
  obtain rfl : f = f' := same.eq (written.text.trans written'.text.symm)
  exact ⟨f, r, r', scanned, scanned'⟩

/-- A dollar sign that leads no variable, next to syntax of other dialects. -/
theorem scanAll_eq_standard_dollar :
    let d := ofChars ['a', '$', '1', '{', '%', '#', '{', '@', 'b']
    Dialect.Unused .hss d.text ∧
      ∃ f r r', d.scanAll default { config := { dialect := .dialect .hss } } = .ok (f, r) ∧
        d.scanAll default {} = .ok (f, r') := by
  intro d
  have unused : Dialect.Unused .hss d.text := by
    intro c pair
    obtain rfl : c = '1' := by simpa [d, ofChars, List.infix_cons_iff] using pair
    rfl
  have options : ScanSetup.options default { config := { dialect := .dialect .hss } } =
      .ok ⟨.hss, true, .builtin⟩ := rfl
  have options' : ScanSetup.options default {} = .ok ⟨.standard, true, .builtin⟩ := rfl
  exact ⟨unused, scanAll_eq_standard options options' rfl rfl rfl d unused⟩

/-! ### The case of letters -/

/-- Texts that differ only in the case of ASCII letters get the same styles, fold levels and line
states. -/
theorem scanAll_sameLetters (options : s.options p = .ok o) {text text' : List Char}
    (same : SameLetters text text') :
    ∃ d r d' r', (ofChars text).scanAll p s = .ok (d, r) ∧
      (ofChars text').scanAll p s = .ok (d', r') ∧ d.styles = d'.styles ∧
      d.foldLevels = d'.foldLevels ∧ d.lineStates = d'.lineStates := by
  obtain ⟨d, r, scanned, -, written⟩ := scan_front options (ofChars text) (Nat.le_refl _) .default
  obtain ⟨d', r', scanned', -, written'⟩ :=
    scan_front options (ofChars text') (Nat.le_refl _) .default
  have akin : o.Akin o text := ⟨.refl o.dialect text, rfl⟩
  have parallel := (Machine.Parallel.startAt same .default (by rintro ⟨⟩) true).run akin text.length
  have length : (ofChars text').text.length = text.length := same.length_eq.symm
  rw [length] at written'
  have lines : lineStarts text = lineStarts text' := congrArg (0 :: ·) (same.lineStartsFrom_eq 0)
  have data : SameData (ofChars text) (ofChars text') := by
    constructor
    · simp only [ofChars, List.map_const', same.length_eq]
    · simp only [ofChars, lines]
    · simp only [ofChars, lines]
  have scans := written.sameData written' parallel rfl rfl data
  exact ⟨d, r, d', r', scanned, scanned', scans.styles, scans.foldLevels, scans.lineStates⟩

/-- A property, a unicode range and a number with an exponent, in either case. -/
theorem scanAll_sameLetters_range :
    let text := ['A', '{', 'T', 'o', 'p', ':', 'U', '+', '0', 'F', ',', '1', 'E', '5', '}']
    let text' := ['a', '{', 't', 'O', 'P', ':', 'u', '+', '0', 'f', ',', '1', 'e', '5', '}']
    SameLetters text text' ∧ ∃ d r d' r', (ofChars text).scanAll default {} = .ok (d, r) ∧
      (ofChars text').scanAll default {} = .ok (d', r') ∧ d.styles = d'.styles ∧
      d.foldLevels = d'.foldLevels ∧ d.lineStates = d'.lineStates :=
  ⟨by decide, scanAll_sameLetters (o := ⟨.standard, true, .builtin⟩) rfl (by decide)⟩

end Document

end CssHighlight
