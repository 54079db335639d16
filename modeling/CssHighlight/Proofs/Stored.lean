import CssHighlight.Highlight
import CssHighlight.Proofs.Nesting
import CssHighlight.Proofs.Reachable
import CssHighlight.Proofs.Restart

/-!
# Stored line data

What is stored for the lines of a document, however it was scanned and edited: a line state tells
of no calculation or selector list outside parentheses, and a fold level carries levels that are
counted from the base on.
-/
namespace CssHighlight

namespace LineState

theorem field_le_limit (state : Nat) (f : LineField) : field state f ≤ f.limit :=
  Nat.le_of_lt_succ (Nat.mod_lt _ (Nat.succ_pos _))

/-- Whatever number is stored, the depths that are restored from it are counted within their
bounds. -/
theorem restore_bounded (state : Nat) (c : Context) : (restore state c).Bounded where
  mathDepth := ⟨Int.natCast_nonneg _, Int.ofNat_le.mpr (field_le_limit state .mathDepth)⟩
  parenDepth := ⟨Int.natCast_nonneg _, Int.ofNat_le.mpr (field_le_limit state .parenDepth)⟩
  selectorDepth := ⟨Int.natCast_nonneg _, Int.ofNat_le.mpr (field_le_limit state .selectorDepth)⟩

/-- A value that is a line state, in which calculations and selector lists stand in parentheses. -/
def WellNested (value : Value) : Prop :=
  ∃ state : Nat, value = .int state ∧ state < 0x1000000 ∧
    ∀ c, ∃ restored, decode value c = .ok restored ∧
      restored.mathDepth ≤ restored.parenDepth ∧ restored.selectorDepth ≤ restored.parenDepth

end LineState

namespace FoldLevel

/-- A level between the base and the greatest one. -/
def Counted (level : Int) : Prop :=
  Context.baseFold ≤ level ∧ level ≤ limit

/-- No level, or the stored form of two counted ones. -/
def WellFolded (stored : Option Int) : Prop :=
  stored = none ∨ ∃ here next : Int, Counted here ∧ Counted next ∧
    ∃ packed : Nat, encode here next = .ok packed ∧ stored = some (packed : Int)

theorem counted_base : Counted Context.baseFold := by
  constructor <;> decide

theorem counted_clampFold (level : Int) : Counted (Context.clampFold level) := by
  constructor <;> simp only [Context.clampFold, Context.baseFold, limit] <;> omega

theorem encode_of_nonneg {here next : Int} (nonneg : 0 ≤ here) (nonneg' : 0 ≤ next) :
    encode here next = .ok (pack here.toNat next.toNat) := by
  unfold encode
  rw [if_neg (by omega)]

theorem Counted.nonneg {level : Int} (h : Counted level) : 0 ≤ level :=
  Int.le_trans (by decide) h.1

/-- The line below a line with well-formed data begins on a counted level. -/
theorem WellFolded.carried {stored : Option Int} (h : WellFolded stored) :
    Counted (carried stored) := by
  rcases h with rfl | ⟨here, next, first, last, packed, found, rfl⟩
  · exact counted_base
  · rw [encode_of_nonneg first.nonneg last.nonneg] at found
    obtain rfl := Except.ok.inj found
    have level : next.toNat ≤ limit := by
      have bound := last.2
      omega
    rw [show ((pack here.toNat next.toNat : Nat) : Int) =
      Int.ofNat (pack here.toNat next.toNat) from rfl, carried_pack _ _ level,
      Int.toNat_of_nonneg last.nonneg]
    exact last

end FoldLevel

namespace Context

/-- The nesting is counted within its bounds, and calculations and selector lists stand in
parentheses. -/
structure Nested (x : Context) : Prop extends Bounded x where
  mathDepth_le : x.mathDepth ≤ x.parenDepth
  selectorDepth_le : x.selectorDepth ≤ x.parenDepth

theorem nested_initial : initial.Nested :=
  { sound_initial.toBounded with
    mathDepth_le := by decide
    selectorDepth_le := by decide }

/-- Every depth grows no faster than that of the parentheses. -/
theorem Nested.depths {x y : Context} (h : x.Nested) (depths : Depths x y) : y.Nested := by
  have bounded := h.toBounded.depths depths
  obtain ⟨⟨mathDepth, parenDepth, selectorDepth⟩, mathDepth_le, selectorDepth_le⟩ := h
  have room : maxMathDepth ≤ maxParenDepth ∧ maxSelectorDepth ≤ maxParenDepth := by decide
  cases depths <;> exact ⟨bounded, by omega, by omega⟩

/-- The nesting and the fold level of a context whose line data is well formed. -/
structure WellFormed (o : ScanOptions) (x : Context) : Prop extends Nested x where
  foldHere : o.fold = true → FoldLevel.Counted x.foldHere

theorem wellFormed_invariant (o : ScanOptions) : Machine.Invariant o (WellFormed o) where
  nests := fun h nests =>
    { h.toNested.depths nests.depths with
      foldHere := fun fold => by rw [nests.foldHere]; exact h.foldHere fold }
  endLine := fun {x} h =>
    { h.toNested.depths (y := x.endLine o) (.same rfl rfl rfl) with
      foldHere := fun fold => by
        simp only [endLine, fold, if_true]
        exact FoldLevel.counted_clampFold _ }

theorem WellFormed.wellNested {o : ScanOptions} {x : Context} (h : x.WellFormed o) :
    LineState.WellNested (.int (x.lineData o).state) := by
  refine ⟨LineState.pack x, rfl, LineState.pack_lt x, fun c => ⟨_, rfl, ?_⟩⟩
  rw [show (x.lineData o).state = LineState.pack x from rfl, h.toBounded.restore_pack c]
  exact ⟨h.mathDepth_le, h.selectorDepth_le⟩

theorem WellFormed.wellFolded {o : ScanOptions} {x : Context} (h : x.WellFormed o) :
    FoldLevel.WellFolded ((x.lineData o).fold.map Int.ofNat) := by
  unfold lineData
  cases fold : o.fold with
  | false => exact .inl rfl
  | true =>
    have here := h.foldHere fold
    have next := FoldLevel.counted_clampFold x.foldNext
    exact .inr ⟨_, _, here, next, _, FoldLevel.encode_of_nonneg here.nonneg next.nonneg, rfl⟩

end Context

namespace Document

open LineState (WellNested)
open FoldLevel (WellFolded Counted)

/-! ### The context behind a line -/

/-- The part of the context that the line above a position holds. -/
def lineContext (d : Document) (start : Nat) : Except LineDataError Context :=
  if 0 < (d.lineAt start).toNat then
    LineState.decode (d.lineStates[(d.lineAt start).toNat - 1]?.getD (.int 0))
      { Context.initial with foldHere := d.carriedInto start }
  else .ok .initial

/-- The context with what stands before a position. -/
def lookingBack (d : Document) (start : Nat) (initStyle : Style) (x : Context) : Context :=
  if 0 < start ∧ initStyle.isSpace = true then
    { x with
      lastChar := (d.lastSignificant start).1
      lastStyle := (d.lastSignificant start).2
      foldNext := x.foldHere }
  else { x with foldNext := x.foldHere }

theorem contextAt_eq_map (d : Document) (start : Nat) (initStyle : Style) :
    d.contextAt start initStyle = (d.lineContext start).map (d.lookingBack start initStyle) := by
  unfold contextAt lineContext lookingBack
  by_cases line : 0 < (d.lineAt start).toNat
  · simp only [line, if_true, bind, Except.bind, Except.map, pure, Except.pure, carriedInto]
    cases LineState.decode _ _ with
    | error cause => rfl
    | ok x =>
      dsimp only
      split <;> rfl
  · simp only [line, if_false, bind, Except.bind, Except.map, pure, Except.pure]
    split <;> rfl

theorem lookingBack_calm (d : Document) (start : Nat) (initStyle : Style) (x : Context) :
    Context.Calm x (d.lookingBack start initStyle x) := by
  unfold lookingBack
  split <;> exact ⟨rfl, rfl, rfl, rfl⟩

/-- What a restored context keeps of the data of the line above. -/
theorem contextAt_cases {d : Document} {start : Nat} {initStyle : Style} {x : Context}
    (restored : d.contextAt start initStyle = .ok x) :
    Context.Calm .initial x ∨ ∃ state : Nat, 0 < (d.lineAt start).toNat ∧
      d.lineStates[(d.lineAt start).toNat - 1]?.getD (.int 0) = .int state ∧
      Context.Calm
        (LineState.restore state { Context.initial with foldHere := d.carriedInto start }) x := by
  rw [contextAt_eq_map] at restored
  obtain ⟨y, found, rfl⟩ : ∃ y, d.lineContext start = .ok y ∧
      x = d.lookingBack start initStyle y := by
    cases found : d.lineContext start with
    | error cause => rw [found] at restored; cases restored
    | ok y => rw [found] at restored; exact ⟨y, rfl, (Except.ok.inj restored).symm⟩
  have calm := d.lookingBack_calm start initStyle y
  unfold lineContext at found
  split at found
  next line =>
    refine .inr ?_
    revert found
    cases stored : d.lineStates[(d.lineAt start).toNat - 1]?.getD (.int 0) with
    | int n =>
      cases n with
      | ofNat state =>
        intro found
        rw [← Except.ok.inj found] at calm ⊢
        exact ⟨state, line, rfl, calm⟩
      | negSucc n => rintro ⟨⟩
    | _ => rintro ⟨⟩
  next =>
    rw [← Except.ok.inj found] at calm ⊢
    exact .inl calm

/-! ### Operations -/

/-- A document in which what is stored for every line is well formed. -/
structure WellStored (d : Document) : Prop extends Sized d where
  nested : ∀ state ∈ d.lineStates, WellNested state
  folded : ∀ level ∈ d.foldLevels, WellFolded level

theorem wellNested_zero : WellNested (.int 0) :=
  ⟨0, rfl, by decide, fun _ => ⟨_, rfl, Int.le_refl 0, Int.le_refl 0⟩⟩

theorem wellStored_ofChars (text : List Char) : (ofChars text).WellStored :=
  { sized_ofChars text with
    nested := by
      intro state member
      obtain ⟨_, -, rfl⟩ := List.mem_map.mp member
      exact wellNested_zero
    folded := by
      intro level member
      obtain ⟨_, -, rfl⟩ := List.mem_map.mp member
      exact .inl rfl }

theorem getD_mem_or {α : Type} (items : List α) (i : Nat) (fallback : α) :
    items[i]?.getD fallback ∈ items ∨ items[i]?.getD fallback = fallback := by
  cases found : items[i]? with
  | none => exact .inr rfl
  | some item => exact .inl (List.mem_of_getElem? found)

namespace WellStored

variable {d d' : Document}

/-- Wherever a scan of a well-stored document starts, its context is well formed. -/
theorem contextAt (h : d.WellStored) {start : Nat} {initStyle : Style} {x : Context}
    (restored : d.contextAt start initStyle = .ok x) (o : ScanOptions) : x.WellFormed o := by
  rcases contextAt_cases restored with calm | ⟨state, line, stored, calm⟩
  · have fresh : Context.initial.WellFormed o :=
      { Context.nested_initial with foldHere := fun _ => FoldLevel.counted_base }
    exact (Context.wellFormed_invariant o).nests fresh calm.nests
  · have nested : WellNested (.int state) := by
      rw [← stored]
      rcases getD_mem_or d.lineStates ((d.lineAt start).toNat - 1) (.int 0) with member | same
      · exact h.nested _ member
      · rw [same]
        exact wellNested_zero
    have level : Counted (d.carriedInto start) := by
      refine WellFolded.carried ?_
      rcases getD_mem_or d.foldLevels ((d.lineAt start).toNat - 1) none with member | same
      · exact h.folded _ member
      · exact .inl same
    obtain ⟨_, same, -, decodes⟩ := nested
    obtain rfl : state = _ := Int.ofNat.inj (Value.int.inj same)
    obtain ⟨_, found, mathDepth, selectorDepth⟩ :=
      decodes { Context.initial with foldHere := d.carriedInto start }
    obtain rfl := Except.ok.inj found
    have fresh : (LineState.restore state
        { Context.initial with foldHere := d.carriedInto start }).WellFormed o :=
      { LineState.restore_bounded state _ with
        mathDepth_le := mathDepth
        selectorDepth_le := selectorDepth
        foldHere := fun _ => level }
    exact (Context.wellFormed_invariant o).nests fresh calm.nests

theorem scanFrom (h : d.WellStored) {start n : Nat} (fits : start + n ≤ d.text.length)
    {initStyle : Style} {x : Context} (restored : d.contextAt start initStyle = .ok x)
    (o : ScanOptions) : (d.scanFrom start n initStyle o x).1.WellStored := by
  -- Every line that the scan finishes was finished in a well-formed context.
  have finished : ∀ line ∈ (d.scanMachine start n initStyle o x).lines,
      ∃ y : Context, y.WellFormed o ∧ line = y.lineData o := by
    intro line member
    rcases ((Context.wellFormed_invariant o).run n (h.contextAt restored o)).2 line member with
      none | found
    · cases none
    · exact found
  exact { h.toSized.scanFrom fits initStyle o x with
    nested := by
      intro state member
      rw [lineStates_scanFrom] at member
      rcases mem_overlay member with new | old
      · obtain ⟨line, written, rfl⟩ := List.mem_map.mp new
        obtain ⟨y, formed, rfl⟩ := finished line (List.mem_reverse.mp written)
        exact formed.wellNested
      · exact h.nested state old
    folded := by
      intro level member
      rw [foldLevels_scanFrom] at member
      split at member
      next =>
        rcases mem_overlay member with new | old
        · obtain ⟨line, written, rfl⟩ := List.mem_map.mp new
          obtain ⟨y, formed, rfl⟩ := finished line (List.mem_reverse.mp written)
          exact formed.wellFolded
        · exact h.folded level old
      next => exact h.folded level member }

theorem replace (h : d.WellStored) {start stop : Int} {inserted : List Char}
    (done : d.replace start stop inserted = .ok d') : d'.WellStored := by
  have sized := h.toSized.replace done
  unfold Document.replace at done
  split at done
  next =>
    obtain rfl := Except.ok.inj done
    exact { sized with
      nested := by
        intro state member
        rcases mem_realign member with old | rfl
        · exact h.nested state old
        · exact wellNested_zero
      folded := by
        intro level member
        rcases mem_realign member with old | rfl
        · exact h.folded level old
        · exact .inl rfl }
  next => cases done

theorem scan (h : d.WellStored) {p : Place} {s : ScanSetup} {start length : Int}
    {initStyle : Style} {r : ScanResult} (done : d.scan p s start length initStyle = .ok (d', r)) :
    d'.WellStored := by
  obtain ⟨o, context, fits, restored, rfl⟩ := scan_ok done
  exact h.scanFrom fits restored o

/-- A scan inside a well-stored document takes place, whatever it starts behind. -/
theorem scan_takesPlace (h : d.WellStored) {p : Place} {s : ScanSetup} {o : ScanOptions}
    (options : s.options p = .ok o) {start n : Nat} (fits : start + n ≤ d.text.length)
    (initStyle : Style) : ∃ d' r, d.scan p s start n initStyle = .ok (d', r) := by
  obtain ⟨x, found⟩ : ∃ x, d.lineContext start = .ok x := by
    unfold lineContext
    split
    · have nested :
          WellNested (d.lineStates[(d.lineAt start).toNat - 1]?.getD (.int 0)) := by
        rcases getD_mem_or d.lineStates ((d.lineAt start).toNat - 1) (.int 0) with member | same
        · exact h.nested _ member
        · rw [same]
          exact wellNested_zero
      obtain ⟨_, -, -, decodes⟩ := nested
      obtain ⟨x, found, -⟩ := decodes { Context.initial with foldHere := d.carriedInto start }
      exact ⟨x, found⟩
    · exact ⟨_, rfl⟩
  have restored : d.contextAt start initStyle = .ok (d.lookingBack start initStyle x) := by
    rw [contextAt_eq_map, found]
    rfl
  exact ⟨_, _, Document.scan_eq options d fits restored⟩

end WellStored

/-- What may be done to a document between two looks at its data. -/
inductive Operation where
  | scan (p : Place) (s : ScanSetup) (start length : Int) (initStyle : Style)
  | rescan (p : Place) (s : ScanSetup) (position : Int)
  | replace (start stop : Int) (inserted : List Char)

/-- The document behind an operation. One that is refused leaves the document as it was. -/
def Operation.apply (operation : Operation) (d : Document) : Document :=
  match operation with
  | .scan p s start length initStyle =>
    match d.scan p s start length initStyle with
    | .ok (d', _) => d'
    | .error _ => d
  | .rescan p s position =>
    match d.rescan p s position with
    | .ok (d', _) => d'
    | .error _ => d
  | .replace start stop inserted =>
    match d.replace start stop inserted with
    | .ok d' => d'
    | .error _ => d

/-- One operation keeps what is stored well formed. -/
theorem WellStored.apply {d : Document} (h : d.WellStored) (operation : Operation) :
    (operation.apply d).WellStored := by
  cases operation with
  | scan p s start length initStyle =>
    cases done : d.scan p s start length initStyle with
    | ok scanned => simpa only [Operation.apply, done] using h.scan done
    | error => simpa only [Operation.apply, done] using h
  | rescan p s position =>
    cases done : d.rescan p s position with
    | ok scanned =>
      have kept : scanned.1.WellStored := by
        unfold Document.rescan at done
        split at done
        · exact h.scan done
        · cases done
      simpa only [Operation.apply, done] using kept
    | error => simpa only [Operation.apply, done] using h
  | replace start stop inserted =>
    cases done : d.replace start stop inserted with
    | ok d' => simpa only [Operation.apply, done] using h.replace done
    | error => simpa only [Operation.apply, done] using h

theorem WellStored.foldl_apply {d : Document} (h : d.WellStored) (operations : List Operation) :
    (operations.foldl (fun d operation => operation.apply d) d).WellStored := by
  induction operations generalizing d with
  | nil => exact h
  | cons operation operations ih => exact ih (h.apply operation)

/-- However a text was scanned and edited, every line state that is stored has calculations and
selector lists in parentheses only, every fold level is the stored form of two counted levels, and
no scan inside the text is refused. -/
theorem lineData_after_operations (text : List Char) (operations : List Operation) :
    let d := operations.foldl (fun d operation => operation.apply d) (ofChars text)
    (∀ state ∈ d.lineStates, WellNested state) ∧ (∀ level ∈ d.foldLevels, WellFolded level) ∧
      ∀ (p : Place) (s : ScanSetup) (o : ScanOptions) (start n : Nat) (initStyle : Style),
        s.options p = .ok o → start + n ≤ d.text.length →
          ∃ d' r, d.scan p s start n initStyle = .ok (d', r) := by
  have stored := (wellStored_ofChars text).foldl_apply operations
  refine ⟨stored.nested, stored.folded, ?_⟩
  intro p s o start n initStyle options fits
  exact stored.scan_takesPlace options fits initStyle

/-- A second line with a parenthesis of its own is typed below a scanned one. -/
theorem lineData_after_operations_paren :
    let operations : List Operation :=
      [.scan default {} 0 2 .default, .replace 2 2 ['(', '\n'], .rescan default {} 2]
    let d := operations.foldl (fun d operation => operation.apply d) (ofChars ['(', '\n'])
    (∃ state ∈ d.lineStates, WellNested state) ∧ WellFolded (some 0x4022401) ∧
      ∃ d' r, d.scan default {} ((2 : Nat) : Int) ((1 : Nat) : Int) .default = .ok (d', r) := by
  intro operations d
  obtain ⟨nested, folded, takesPlace⟩ := lineData_after_operations ['(', '\n'] operations
  have second : 1 < d.lineStates.length := by decide +kernel
  have level : some 0x4022401 ∈ d.foldLevels := by decide +kernel
  have inside : 2 + 1 ≤ d.text.length := by decide +kernel
  exact ⟨⟨_, List.getElem_mem second, nested _ (List.getElem_mem second)⟩, folded _ level,
    takesPlace default {} ⟨.standard, true, .builtin⟩ 2 1 .default rfl inside⟩

end Document

end CssHighlight
