import CssHighlight.Document.Tokens
import CssHighlight.Proofs.Scanned

/-!
# Tokens cut a window

The tokens of a window are the maximal runs of one style in it, whatever gave the document its
styles. There is no other way to cut a window into such runs.
-/
namespace CssHighlight

/-- Runs one behind the other from a position up to another one: none is empty, and neighbours have
different styles. -/
inductive Joined : Int → List Run → Int → Prop
  | nil (position : Int) : Joined position [] position
  | cons {run : Run} {rest : List Run} {stop : Int} (nonempty : run.start < run.stop)
      (differs : ∀ next ∈ rest.head?, run.style ≠ next.style)
      (joined : Joined run.stop rest stop) : Joined run.start (run :: rest) stop

/-- Runs that cut a list of styles whose first one stands at `start`. -/
structure Cuts (start : Int) (styles : List Style) (runs : List Run) : Prop where
  joined : Joined start runs (start + styles.length)
  styled : ∀ run ∈ runs, ∀ p : Int, run.start ≤ p → p < run.stop →
    styles[(p - start).toNat]? = some run.style

namespace Joined

variable {start stop : Int} {runs : List Run}

theorem le (h : Joined start runs stop) : start ≤ stop := by
  induction h with
  | nil => exact Int.le_refl _
  | cons nonempty _ _ ih => exact Int.le_trans (Int.le_of_lt nonempty) ih

theorem bounds (h : Joined start runs stop) {run : Run} (member : run ∈ runs) :
    start ≤ run.start ∧ run.start < run.stop ∧ run.stop ≤ stop := by
  induction h with
  | nil => cases member
  | cons nonempty _ joined ih =>
    rcases List.mem_cons.mp member with rfl | later
    · exact ⟨Int.le_refl _, nonempty, joined.le⟩
    · have further := ih later
      omega

theorem eq_nil_iff (h : Joined start runs stop) : runs = [] ↔ start = stop := by
  cases h with
  | nil => exact iff_of_true rfl rfl
  | cons nonempty _ joined =>
    have le := joined.le
    exact iff_of_false (List.cons_ne_nil _ _) (by omega)

theorem uncons {run : Run} {rest : List Run} (h : Joined start (run :: rest) stop) :
    run.start = start ∧ run.start < run.stop ∧ (∀ next ∈ rest.head?, run.style ≠ next.style) ∧
      Joined run.stop rest stop := by
  cases h with
  | cons nonempty differs joined => exact ⟨rfl, nonempty, differs, joined⟩

end Joined

/-! ### Runs of a list of styles -/

theorem runsOf_nil (start : Int) : runsOf start [] = [] := rfl

theorem runsOf_cons (start : Int) (style : Style) (styles : List Style) :
    runsOf start (style :: styles) = joinRun (style, start) (runsOf (start + 1) styles) := by
  have shifted : (styles.zipIdx 1).map (fun entry => (entry.1, start + entry.2)) =
      styles.zipIdx.map fun entry => (entry.1, start + 1 + entry.2) := by
    rw [List.zipIdx_succ, List.map_map]
    refine List.map_congr_left fun entry _ => ?_
    simp only [Function.comp_apply, Int.natCast_add, Int.natCast_one, Prod.mk.injEq, true_and]
    omega
  simp only [runsOf, List.zipIdx_cons, List.map_cons, List.foldr_cons, Nat.zero_add, shifted,
    Int.natCast_zero, Int.add_zero]

namespace Cuts

variable {start : Int} {style : Style} {styles : List Style} {run : Run} {runs : List Run}

/-- Behind one more style the runs are where they were. -/
theorem shifted (h : Cuts (start + 1) styles runs) (style : Style) :
    Joined (start + 1) runs (start + (style :: styles).length) ∧
      ∀ run ∈ runs, ∀ p : Int, run.start ≤ p → p < run.stop →
        (style :: styles)[(p - start).toNat]? = some run.style := by
  refine ⟨?_, fun run member p from_ upTo => ?_⟩
  · have joined := h.joined
    rwa [show start + 1 + styles.length = start + (style :: styles).length by
      rw [List.length_cons]; omega] at joined
  · have behind := (h.joined.bounds member).1
    rw [show (p - start).toNat = (p - (start + 1)).toNat + 1 by omega, List.getElem?_cons_succ]
    exact h.styled run member p from_ upTo

theorem cons (h : Cuts (start + 1) styles runs)
    (differs : ∀ next ∈ runs.head?, style ≠ next.style) :
    Cuts start (style :: styles) (⟨start, start + 1, style⟩ :: runs) := by
  obtain ⟨joined, styled⟩ := h.shifted style
  refine ⟨@Joined.cons ⟨start, start + 1, style⟩ _ _ (Int.lt_succ start) differs joined, ?_⟩
  intro piece member p from_ upTo
  rcases List.mem_cons.mp member with rfl | later
  · rw [show (p - start).toNat = 0 by simp only at from_ upTo; omega, List.getElem?_cons_zero]
  · exact styled piece later p from_ upTo

theorem grow (h : Cuts (start + 1) styles (run :: runs)) :
    Cuts start (run.style :: styles) ({ run with start := start } :: runs) := by
  obtain ⟨joined, styled⟩ := h.shifted run.style
  obtain ⟨begins, nonempty, differs, tail⟩ := joined.uncons
  refine ⟨@Joined.cons { run with start := start } _ _ (by simp only; omega) differs tail, ?_⟩
  intro piece member p from_ upTo
  rcases List.mem_cons.mp member with rfl | later
  · simp only at from_ upTo
    by_cases here : p = start
    · rw [here, Int.sub_self, Int.toNat_zero, List.getElem?_cons_zero]
    · exact styled run List.mem_cons_self p (by omega) upTo
  · exact styled piece (List.mem_cons_of_mem _ later) p from_ upTo

/-- One more style in front goes into the first run or makes a run of its own. -/
theorem joinRun (h : Cuts (start + 1) styles runs) :
    Cuts start (style :: styles) (joinRun (style, start) runs) := by
  cases runs with
  | nil => exact h.cons nofun
  | cons run rest =>
    by_cases same : run.style = style
    · subst same
      rw [CssHighlight.joinRun, if_pos rfl]
      exact h.grow
    · rw [CssHighlight.joinRun, if_neg same]
      refine h.cons ?_
      rintro next ⟨⟩
      exact Ne.symm same

/-- The first run has the style that stands in front. -/
theorem head_style (h : Cuts start styles (run :: runs)) : styles.head? = some run.style := by
  obtain ⟨begins, nonempty, -, -⟩ := h.joined.uncons
  have styled := h.styled run List.mem_cons_self run.start (Int.le_refl _) nonempty
  rwa [begins, Int.sub_self, Int.toNat_zero, ← List.head?_eq_getElem?] at styled

end Cuts

theorem cuts_runsOf (start : Int) (styles : List Style) :
    Cuts start styles (runsOf start styles) := by
  induction styles generalizing start with
  | nil =>
    refine ⟨?_, nofun⟩
    rw [List.length_nil, Int.natCast_zero, Int.add_zero]
    exact .nil start
  | cons style styles ih =>
    rw [runsOf_cons]
    exact (ih (start + 1)).joinRun

/-- Equal styles in front of another one, or of none, are one run. -/
theorem runsOf_replicate (start : Int) {style : Style} (count : Nat) {styles : List Style}
    (differs : styles.head? ≠ some style) :
    runsOf start (List.replicate (count + 1) style ++ styles) =
      ⟨start, start + (count + 1 : Nat), style⟩ :: runsOf (start + (count + 1 : Nat)) styles := by
  induction count generalizing start with
  | zero =>
    rw [List.replicate_one, List.singleton_append, runsOf_cons, Nat.zero_add, Int.natCast_one]
    have cuts := cuts_runsOf (start + 1) styles
    cases found : runsOf (start + 1) styles with
    | nil => rfl
    | cons run rest =>
      rw [found] at cuts
      have other : run.style ≠ style := by
        rintro rfl
        exact differs cuts.head_style
      rw [CssHighlight.joinRun, if_neg other]
  | succ count ih =>
    have ends : start + 1 + (count + 1 : Nat) = start + (count + 1 + 1 : Nat) := by omega
    rw [List.replicate_succ, List.cons_append, runsOf_cons, ih (start + 1), CssHighlight.joinRun,
      if_pos rfl, ends]

/-- There is only one way to cut a list of styles. -/
theorem Cuts.eq_runsOf {start : Int} {styles : List Style} {runs : List Run}
    (h : Cuts start styles runs) : runs = runsOf start styles := by
  induction runs generalizing start styles with
  | nil =>
    have empty := h.joined.eq_nil_iff.mp rfl
    obtain rfl : styles = [] := List.eq_nil_of_length_eq_zero (by omega)
    rfl
  | cons run rest ih =>
    obtain ⟨rfl, nonempty, differs, tail⟩ := h.joined.uncons
    have le := tail.le
    obtain ⟨count, length⟩ : ∃ count : Nat, run.stop = run.start + (count + 1 : Nat) :=
      ⟨(run.stop - run.start - 1).toNat, by omega⟩
    have fits : count + 1 ≤ styles.length := by omega
    -- The styles of the first run, and those behind it.
    have front : styles.take (count + 1) = List.replicate (count + 1) run.style := by
      refine List.eq_replicate_iff.mpr ⟨List.length_take_of_le fits, fun style member => ?_⟩
      obtain ⟨i, inside, rfl⟩ := List.mem_iff_getElem.mp member
      rw [List.length_take_of_le fits] at inside
      have styled := h.styled run List.mem_cons_self (run.start + i) (by omega) (by omega)
      rw [show (run.start + i - run.start).toNat = i by omega] at styled
      rw [List.getElem_take]
      exact (List.getElem?_eq_some_iff.mp styled).2
    have behind : Cuts run.stop (styles.drop (count + 1)) rest := by
      refine ⟨?_, fun other member p from_ upTo => ?_⟩
      · rwa [List.length_drop, show run.stop + ((styles.length - (count + 1) : Nat) : Int) =
          run.start + styles.length by omega]
      · have later := (tail.bounds member).1
        rw [List.getElem?_drop, show count + 1 + (p - run.stop).toNat = (p - run.start).toNat by
          omega]
        exact h.styled other (List.mem_cons_of_mem _ member) p from_ upTo
    have other : (styles.drop (count + 1)).head? ≠ some run.style := by
      intro same
      cases rest with
      | nil =>
        have ends := tail.eq_nil_iff.mp rfl
        rw [List.drop_of_length_le (by omega)] at same
        cases same
      | cons next rest =>
        rw [behind.head_style] at same
        exact differs next rfl (Option.some.inj same).symm
    rw [← List.take_append_drop (count + 1) styles, front, runsOf_replicate _ _ other, ← length,
      ← ih behind]

/-! ### Slices -/

section Slices

variable {α : Type} {items : List α} {start middle stop : Int}

theorem slice_eq (low : 0 ≤ start) (ordered : start ≤ stop) (high : stop ≤ items.length) :
    slice items start stop = (items.drop start.toNat).take (stop - start).toNat := by
  have bound {p : Int} (low : 0 ≤ p) (high : p ≤ items.length) :
      sliceBound items.length p = p.toNat := by
    rw [sliceBound, if_neg (Int.not_lt.mpr low), Nat.min_eq_left (by omega)]
  simp only [slice, bound low (Int.le_trans ordered high), bound (Int.le_trans low ordered) high]
  rw [show stop.toNat - start.toNat = (stop - start).toNat by omega]

theorem length_slice (low : 0 ≤ start) (ordered : start ≤ stop) (high : stop ≤ items.length) :
    (slice items start stop).length = (stop - start).toNat := by
  rw [slice_eq low ordered high, List.length_take, List.length_drop]
  omega

theorem getElem?_slice (low : 0 ≤ start) (high : stop ≤ items.length) {p : Int}
    (from_ : start ≤ p) (upTo : p < stop) :
    (slice items start stop)[(p - start).toNat]? = items[p.toNat]? := by
  rw [slice_eq low (by omega) high, List.getElem?_take_of_lt (by omega), List.getElem?_drop,
    show start.toNat + (p - start).toNat = p.toNat by omega]

theorem slice_append (low : 0 ≤ start) (first : start ≤ middle) (second : middle ≤ stop)
    (high : stop ≤ items.length) :
    slice items start middle ++ slice items middle stop = slice items start stop := by
  rw [slice_eq low first (by omega), slice_eq (by omega) second high, slice_eq low (by omega) high,
    show (stop - start).toNat = (middle - start).toNat + (stop - middle).toNat by omega,
    List.take_add, List.drop_drop,
    show start.toNat + (middle - start).toNat = middle.toNat by omega]

/-- Slices at runs one behind the other make up the slice at all of them. -/
theorem Joined.flatMap_slice {runs : List Run} (h : Joined start runs stop) (items : List α)
    (low : 0 ≤ start) (high : stop ≤ items.length) :
    (runs.flatMap fun run => slice items run.start run.stop) = slice items start stop := by
  induction h with
  | nil position =>
    refine (List.eq_nil_of_length_eq_zero ?_).symm
    rw [length_slice low (Int.le_refl _) high, Int.sub_self, Int.toNat_zero]
  | cons nonempty _ joined ih =>
    rw [List.flatMap_cons, ih (by omega) high]
    exact slice_append low (Int.le_of_lt nonempty) joined.le high

end Slices

/-! ### Tokens -/

namespace Token

/-- The range of a token and its style. -/
def run (t : Token) : Run :=
  ⟨t.start, t.stop, t.style⟩

/-- The styles of a token's characters. -/
def styles (t : Token) : List Style :=
  List.replicate (t.stop - t.start).toNat t.style

end Token

namespace Document

/-- Tokens that cut a window: they stand one behind the other from `start` up to `stop`, none of
them empty and no two neighbours of one style, and each has the text at its range and a style that
all characters there have. -/
structure Partition (d : Document) (start stop : Int) (tokens : List Token) : Prop where
  joined : Joined start (tokens.map Token.run) stop
  text : ∀ t ∈ tokens, t.text = slice d.text t.start t.stop
  styled : ∀ t ∈ tokens, ∀ p : Int, t.start ≤ p → p < t.stop → d.styleAt p = .ok t.style

variable {d : Document} {start stop : Nat} {tokens : List Token}

/-- The token at a run. -/
def tokenAt (d : Document) (run : Run) : Token :=
  ⟨run.start, run.stop, run.style, slice d.text run.start run.stop⟩

theorem runs_eq (ordered : start ≤ stop) (fits : stop ≤ d.styles.length) :
    d.runs start stop = .ok (runsOf start (slice d.styles start stop)) := by
  have window : slice d.styles start stop = (d.styles.drop start).take (stop - start) := by
    rw [slice_eq (Int.natCast_nonneg _) (by omega) (by omega), Int.toNat_natCast,
      show ((stop : Int) - start).toNat = stop - start by omega]
  simp only [runs]
  split
  next empty =>
    rw [window, show stop - start = 0 by omega, List.take_zero, runsOf_nil]
  next =>
    -- Behind the front copy of the styles stands the copy that the window lies in.
    rw [if_neg (by omega), window, show ((start : Int) + d.styles.length).toNat =
      d.styles.length + start by omega, List.drop_append,
      show ((stop : Int) - start).toNat = stop - start by omega, List.drop_of_length_le (by omega),
      List.nil_append, Nat.add_sub_cancel_left]

theorem tokens_eq (ordered : start ≤ stop) (fits : stop ≤ d.styles.length) :
    d.tokens start stop = .ok ((runsOf start (slice d.styles start stop)).map d.tokenAt) := by
  simp only [tokens, runs_eq ordered fits, Except.map]
  congr 2
  funext run
  simp only [tokenAt, slice, Array.toList_extract, List.extract_eq_take_drop, List.size_toArray]

theorem styleAt_of_nonneg {p : Int} (low : 0 ≤ p) {style : Style} :
    d.styleAt p = .ok style ↔ d.styles[p.toNat]? = some style := by
  obtain ⟨i, rfl⟩ := Int.eq_ofNat_of_zero_le low
  exact itemAt_eq_ok_iff

theorem partition_tokenAt {runs : List Run} (fits : stop ≤ d.styles.length)
    (cuts : Cuts start (slice d.styles start stop) runs) (ordered : start ≤ stop) :
    d.Partition start stop (runs.map d.tokenAt) := by
  have joined := cuts.joined
  rw [length_slice (Int.natCast_nonneg _) (by omega) (by omega),
    show (start : Int) + (((stop : Int) - start).toNat : Int) = stop by omega] at joined
  refine ⟨?_, fun t member => ?_, fun t member p from_ upTo => ?_⟩
  · rw [List.map_map]
    exact (List.map_id runs).symm ▸ joined
  · obtain ⟨run, -, rfl⟩ := List.mem_map.mp member
    rfl
  · obtain ⟨run, inside, rfl⟩ := List.mem_map.mp member
    have bounds := joined.bounds inside
    simp only [tokenAt] at from_ upTo ⊢
    rw [styleAt_of_nonneg (by omega), ← cuts.styled run inside p from_ upTo,
      getElem?_slice (Int.natCast_nonneg _) (by omega) (by omega) (by omega)]

namespace Partition

theorem bounds (h : d.Partition start stop tokens) {t : Token} (member : t ∈ tokens) :
    start ≤ t.start ∧ t.start < t.stop ∧ t.stop ≤ stop :=
  h.joined.bounds (List.mem_map_of_mem member)

theorem cuts (h : d.Partition start stop tokens) (fits : stop ≤ d.styles.length) :
    Cuts start (slice d.styles start stop) (tokens.map Token.run) := by
  have le := h.joined.le
  refine ⟨?_, fun run member p from_ upTo => ?_⟩
  · rw [length_slice (Int.natCast_nonneg _) (by omega) (by omega),
      show (start : Int) + (((stop : Int) - start).toNat : Int) = stop by omega]
    exact h.joined
  · obtain ⟨t, inside, rfl⟩ := List.mem_map.mp member
    have bounds := h.bounds inside
    simp only [Token.run] at from_ upTo ⊢
    rw [getElem?_slice (Int.natCast_nonneg _) (by omega) (by omega) (by omega)]
    exact (styleAt_of_nonneg (by omega)).mp (h.styled t inside p from_ upTo)

/-- A token is determined by its range and its style. -/
theorem eq_map_tokenAt (h : d.Partition start stop tokens) :
    tokens = (tokens.map Token.run).map d.tokenAt := by
  rw [List.map_map]
  refine ((List.map_congr_left fun t member => ?_).trans (List.map_id tokens)).symm
  simp only [Function.comp_apply, tokenAt, Token.run, ← h.text t member, id_eq]

theorem flatMap_text (h : d.Partition start stop tokens) (fits : stop ≤ d.text.length) :
    tokens.flatMap Token.text = slice d.text start stop := by
  have joined := h.joined.flatMap_slice d.text (Int.natCast_nonneg _) (by omega)
  rw [← joined, List.flatMap_map, List.flatMap_def, List.flatMap_def, List.map_congr_left h.text]
  rfl

/-- All characters of a token have its style. -/
theorem styles_eq (h : d.Partition start stop tokens) (fits : stop ≤ d.styles.length) {t : Token}
    (member : t ∈ tokens) : t.styles = slice d.styles t.start t.stop := by
  have bounds := h.bounds member
  have length : (slice d.styles t.start t.stop).length = (t.stop - t.start).toNat :=
    length_slice (by omega) (by omega) (by omega)
  refine (List.eq_replicate_iff.mpr ⟨length, fun style inside => ?_⟩).symm
  obtain ⟨i, below, rfl⟩ := List.mem_iff_getElem.mp inside
  have lt : (t.start + i : Int) < t.stop := by omega
  have styled := (styleAt_of_nonneg (by omega)).mp (h.styled t member (t.start + i) (by omega) lt)
  have same : (slice d.styles t.start t.stop)[(t.start + i - t.start).toNat]? =
      d.styles[(t.start + i : Int).toNat]? :=
    getElem?_slice (by omega) (by omega) (by omega) lt
  rw [← same, show (t.start + i - t.start).toNat = i by omega] at styled
  exact (List.getElem?_eq_some_iff.mp styled).2

theorem flatMap_styles (h : d.Partition start stop tokens) (fits : stop ≤ d.styles.length) :
    tokens.flatMap Token.styles = slice d.styles start stop := by
  have joined := h.joined.flatMap_slice d.styles (Int.natCast_nonneg _) (by omega)
  rw [← joined, List.flatMap_map, List.flatMap_def, List.flatMap_def,
    List.map_congr_left fun t => h.styles_eq fits]
  rfl

end Partition

/-- The tokens of a window of any document cut it: their texts make up the text of the window, and
their styles, each as often as the token has characters, the styles of the window. No other list of
tokens cuts the window. -/
theorem tokens_partition (styled : d.styles.length = d.text.length) (ordered : start ≤ stop)
    (fits : stop ≤ d.text.length) :
    ∃ tokens, d.tokens start stop = .ok tokens ∧ d.Partition start stop tokens ∧
      (tokens = [] ↔ start = stop) ∧
      tokens.flatMap Token.text = slice d.text start stop ∧
      tokens.flatMap Token.styles = slice d.styles start stop ∧
      ∀ others, d.Partition start stop others → others = tokens := by
  rw [← styled] at fits
  have cut := partition_tokenAt fits (cuts_runsOf start (slice d.styles start stop)) ordered
  refine ⟨_, tokens_eq ordered fits, cut, ?_, cut.flatMap_text (styled ▸ fits),
    cut.flatMap_styles fits, fun others h => ?_⟩
  · have none := cut.joined.eq_nil_iff
    rwa [List.map_eq_nil_iff, Int.natCast_inj] at none
  · rw [h.eq_map_tokenAt, (h.cuts fits).eq_runsOf]

/-- A window that begins inside a run and ends inside another one. -/
theorem tokens_partition_inside :
    let d : Document := ⟨['a', 'b', ':', ':', 'c'], [.tag, .tag, .url, .tag, .tag], [], []⟩
    d.styles.length = d.text.length ∧
      ∀ others, d.Partition (1 : Nat) (4 : Nat) others →
        others = [⟨1, 2, .tag, ['b']⟩, ⟨2, 3, .url, [':']⟩, ⟨3, 4, .tag, [':']⟩] := by
  intro d
  obtain ⟨tokens, found, -, -, -, -, only⟩ :=
    @tokens_partition d 1 4 rfl (by decide) (by decide)
  obtain rfl : [⟨1, 2, .tag, ['b']⟩, ⟨2, 3, .url, [':']⟩, ⟨3, 4, .tag, [':']⟩] = tokens :=
    Except.ok.inj found
  exact ⟨rfl, only⟩

end Document

end CssHighlight
