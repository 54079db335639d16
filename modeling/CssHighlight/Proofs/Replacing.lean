import CssHighlight.Proofs.Edits

/-!
# What an edit keeps

An edit replaces a piece of the text together with its styles, and the data of the lines moves with
them: the lines in front of the edit keep theirs, the lines that start behind it keep theirs as the
last lines of the new text, and the lines in between are as if they were never scanned. The three
parts fit beside each other, wherever the edit splits or joins a line break of two characters.
-/
namespace CssHighlight

namespace Document

section Realign

variable {α : Type} {data : List α} {kept moved count : Nat} {fresh : α}

/-- The items in front keep their places. -/
theorem getElem?_realign_front {i : Nat} (front : i < kept) (inside : i < data.length) :
    (realign data kept moved count fresh)[i]? = data[i]? := by
  have taken := @take_realign α data kept moved count fresh (i + 1) front inside
  rw [← List.getElem?_take_of_lt (Nat.lt_succ_self i), taken,
    List.getElem?_take_of_lt (Nat.lt_succ_self i)]

/-- The items behind are the last ones again. -/
theorem getElem?_realign_back {i : Nat} (front : kept ≤ data.length)
    (fits : kept + (data.length - moved) ≤ count) (back : i < data.length - moved) :
    (realign data kept moved count fresh)[count - 1 - i]? = data[data.length - 1 - i]? := by
  have before : (data.take kept ++
      List.replicate (count - kept - (data.length - moved)) fresh).length =
        count - (data.length - moved) := by
    simp only [List.length_append, List.length_take, List.length_replicate]
    omega
  rw [realign, List.getElem?_append_right (by omega), before, List.getElem?_drop]
  congr 1
  omega

/-- In between everything is fresh. -/
theorem getElem?_realign_between {i : Nat} (front : kept ≤ data.length) (behind : kept ≤ i)
    (before : i < count - (data.length - moved)) :
    (realign data kept moved count fresh)[i]? = some fresh := by
  have taken : (data.take kept).length = kept := List.length_take_of_le front
  have inside : i < (data.take kept ++
      List.replicate (count - kept - (data.length - moved)) fresh).length := by
    simp only [List.length_append, List.length_take, List.length_replicate]
    omega
  rw [realign, List.getElem?_append_left inside, List.getElem?_append_right (by omega), taken,
    List.getElem?_replicate_of_lt (by omega)]

end Realign

/-- How many lines start behind a position. -/
def linesBehind (d : Document) (position : Nat) : Nat :=
  (lineStarts d.text).countP (position < ·)

/-- A line has the data of a line that was never scanned. -/
structure FreshLine (d : Document) (line : Nat) : Prop where
  foldLevel : d.foldLevel line = .ok none
  lineState : d.lineState line = .ok (.int 0)

/-- What an edit makes of a document. -/
structure Replaced (d : Document) (e : Edit) (d' : Document) : Prop extends Sized d' where
  text : d'.text = d.text.take e.start ++ e.inserted ++ d.text.drop e.stop
  styles_eq : d'.styles =
    d.styles.take e.start ++ List.replicate e.inserted.length .default ++ d.styles.drop e.stop
  /-- The lines in front and those behind have room beside each other. -/
  room : min (d.lineAt e.start) (d'.lineAt e.start) + 1 + d.linesBehind e.stop ≤ d'.lineCount
  front : ∀ line : Nat, line ≤ min (d.lineAt e.start) (d'.lineAt e.start) →
    SameLine d' line d line
  behind : ∀ i < d.linesBehind e.stop,
    SameLine d' (d'.lineCount - 1 - i) d (d.lineCount - 1 - i)
  between : ∀ line : Nat, min (d.lineAt e.start) (d'.lineAt e.start) < line →
    line < d'.lineCount - d.linesBehind e.stop → FreshLine d' line

theorem linesBehind_eq (d : Document) (position : Nat) :
    d.linesBehind position = d.lineCount - (lineEnds position d.text + 1) := by
  have all := List.length_eq_countP_add_countP (fun start => decide (start ≤ position))
    (l := lineStarts d.text)
  have above : (lineStarts d.text).countP (fun start => ¬decide (start ≤ position) = true) =
      d.linesBehind position := by
    simp only [linesBehind, decide_eq_true_eq, Nat.not_le]
  rw [above, countP_lineStarts] at all
  rw [lineCount]
  omega

theorem freshLine_iff {d : Document} {line : Nat} :
    FreshLine d line ↔ d.foldLevels[line]? = some none ∧ d.lineStates[line]? = some (.int 0) :=
  ⟨fun fresh => ⟨itemAt_eq_ok_iff.mp fresh.foldLevel, itemAt_eq_ok_iff.mp fresh.lineState⟩,
    fun stored => ⟨itemAt_eq_ok_iff.mpr stored.1, itemAt_eq_ok_iff.mpr stored.2⟩⟩

theorem Sized.replaced_edited {d : Document} (sized : d.Sized) {e : Edit} (fits : e.Fits d.text) :
    Replaced d e (d.edited e) := by
  -- The number of lines in between is a difference of three counts, and never negative.
  obtain ⟨-, front, room⟩ := d.linesKept_bounds fits
  have behind := d.linesBehind_eq e.stop
  have first : min (d.lineAt e.start) ((d.edited e).lineAt e.start) + 1 = d.linesKept e := by
    rw [lineAt_eq, lineAt_eq, linesKept]
    have text : (d.edited e).text = e.apply d.text := rfl
    rw [text]
    omega
  exact { sized.edited fits with
    text := rfl
    styles_eq := by rw [Document.edited, List.map_const']
    room := by omega
    front := by
      intro line le
      have kept : line < d.linesKept e := by omega
      exact ⟨itemAt_eq_iff.mpr (getElem?_realign_front kept (by rw [sized.foldLevels]; omega)),
        itemAt_eq_iff.mpr (getElem?_realign_front kept (by rw [sized.lineStates]; omega))⟩
    behind := by
      intro i back
      refine ⟨itemAt_eq_iff.mpr ?_, itemAt_eq_iff.mpr ?_⟩
      · rw [← sized.foldLevels]
        exact getElem?_realign_back (sized.foldLevels ▸ front) (sized.foldLevels ▸ room)
          (by rw [sized.foldLevels]; omega)
      · rw [← sized.lineStates]
        exact getElem?_realign_back (sized.lineStates ▸ front) (sized.lineStates ▸ room)
          (by rw [sized.lineStates]; omega)
    between := by
      intro line after before
      have kept : d.linesKept e ≤ line := by omega
      refine freshLine_iff.mpr ⟨?_, ?_⟩
      · exact getElem?_realign_between (sized.foldLevels ▸ front) kept
          (by rw [sized.foldLevels]; rw [behind] at before; exact before)
      · exact getElem?_realign_between (sized.lineStates ▸ front) kept
          (by rw [sized.lineStates]; rw [behind] at before; exact before) }

/-- Written field by field, an edit does what it does to the document as a whole; one that does not
fit the text is refused before the first write. -/
theorem run_replaceInPlace (d : Document) (start stop : Int) (inserted : List Char) :
    (replaceInPlace start stop inserted).run.run d = match d.replace start stop inserted with
      | .ok d' => (.ok (), d')
      | .error cause => (.error cause, d) := by
  have reads (f : Document → ExceptT EditRangeError (StateM Document) Unit) :
      (get >>= f).run.run d = (f d).run.run d := rfl
  unfold replaceInPlace replace
  rw [reads]
  by_cases fits : 0 ≤ start ∧ start ≤ stop ∧ stop ≤ d.length
  · rw [if_pos fits, if_pos fits]
    rfl
  · rw [if_neg fits, if_neg fits]
    rfl

/-- An edit that fits the text keeps the document consistent, wherever it splits or joins a line
break; any other one is refused and changes nothing. -/
theorem Sized.replaceInPlace_replaced {d : Document} (sized : d.Sized) :
    (∀ e : Edit, e.Fits d.text → ∃ d',
      (replaceInPlace e.start e.stop e.inserted).run.run d = (.ok (), d') ∧
        d.replace e.start e.stop e.inserted = .ok d' ∧ Replaced d e d') ∧
      ∀ (start stop : Int) (inserted : List Char),
        ¬(0 ≤ start ∧ start ≤ stop ∧ stop ≤ d.text.length) →
          (replaceInPlace start stop inserted).run.run d = (.error ⟨start, stop⟩, d) ∧
            d.replace start stop inserted = .error ⟨start, stop⟩ := by
  constructor
  · intro e fits
    refine ⟨d.edited e, ?_, replace_eq d fits, sized.replaced_edited fits⟩
    rw [run_replaceInPlace, replace_eq d fits]
  · intro start stop inserted outside
    have refused : d.replace start stop inserted = .error ⟨start, stop⟩ := if_neg outside
    refine ⟨?_, refused⟩
    rw [run_replaceInPlace, refused]

/-- Where the edit joins a carriage return and a line feed, the edited line becomes part of the
line before it, and the line behind moves up. -/
theorem replaceInPlace_replaced_joined :
    let d : Document := ⟨['a', '\r', 'x', '\n', 'b'], [.tag, .default, .tag, .default, .value],
      [some 1, some 2, some 3], [.int 4, .int 5, .int 6]⟩
    let joined : Document := ⟨['a', '\r', '\n', 'b'], [.tag, .default, .default, .value],
      [some 1, some 3], [.int 4, .int 6]⟩
    d.Sized ∧ Edit.Fits ⟨2, 3, []⟩ d.text ∧
      (replaceInPlace 2 3 []).run.run d = (.ok (), joined) ∧ Replaced d ⟨2, 3, []⟩ joined ∧
      (replaceInPlace 3 2 []).run.run d = (.error ⟨3, 2⟩, d) := by
  intro d joined
  have sized : d.Sized := ⟨rfl, rfl, rfl⟩
  have fits : Edit.Fits ⟨2, 3, []⟩ d.text := ⟨by decide, by decide⟩
  obtain ⟨d', written, made, replaced⟩ := sized.replaceInPlace_replaced.1 _ fits
  obtain rfl : joined = d' := Except.ok.inj made
  exact ⟨sized, fits, written, replaced,
    (sized.replaceInPlace_replaced.2 3 2 [] (by decide)).1⟩

end Document

end CssHighlight
