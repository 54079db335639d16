import CssHighlight.Proofs.Edits
import CssHighlight.Proofs.Restart

/-!
# Reachable documents

Whatever is done to a document, it has a style for every character, and a fold level and a line
state for every line.
-/
namespace CssHighlight

theorem length_putItem {α : Type} {items items' : List α} {position : Int} {item : α}
    (put : putItem items position item = .ok items') : items'.length = items.length := by
  unfold putItem at put
  split at put
  next =>
    rw [← Except.ok.inj put, List.length_set]
  next => cases put

namespace Document

/-- The documents that come from a text by edits, scans, and writes of single styles and data. -/
inductive Reachable : Document → Prop
  | ofChars (text : List Char) : Reachable (ofChars text)
  | replace {d d' : Document} {start stop : Int} {inserted : List Char} (h : Reachable d)
      (done : d.replace start stop inserted = .ok d') : Reachable d'
  | scan {d d' : Document} {p : Place} {s : ScanSetup} {start length : Int} {initStyle : Style}
      {r : ScanResult} (h : Reachable d)
      (done : d.scan p s start length initStyle = .ok (d', r)) : Reachable d'
  | setFoldLevel {d d' : Document} {line : Int} {level : Option Int} (h : Reachable d)
      (done : d.setFoldLevel line level = .ok d') : Reachable d'
  | setLineState {d d' : Document} {line : Int} {state : Value} (h : Reachable d)
      (done : d.setLineState line state = .ok d') : Reachable d'
  | paint {d : Document} {start stop : Int} {style : Style} (h : Reachable d) :
      Reachable (d.paint start stop style).1

theorem Sized.replace {d d' : Document} (h : d.Sized) {start stop : Int} {inserted : List Char}
    (done : d.replace start stop inserted = .ok d') : d'.Sized := by
  by_cases range : 0 ≤ start ∧ start ≤ stop ∧ stop ≤ d.length
  · obtain ⟨first, ordered, inside⟩ := range
    obtain ⟨low, rfl⟩ := Int.eq_ofNat_of_zero_le first
    obtain ⟨high, rfl⟩ := Int.eq_ofNat_of_zero_le (Int.le_trans first ordered)
    have fits : Edit.Fits ⟨low, high, inserted⟩ d.text :=
      ⟨Int.ofNat_le.mp ordered, Int.ofNat_le.mp inside⟩
    obtain rfl := Except.ok.inj ((d.replace_eq fits).symm.trans done)
    exact h.edited fits
  · rw [Document.replace, if_neg range] at done
    cases done

theorem checkRange_eq_ok {d : Document} {start length : Int}
    (checked : d.checkRange start length = .ok ()) :
    0 ≤ start ∧ 0 ≤ length ∧ start + length ≤ d.text.length := by
  unfold checkRange Document.length at checked
  by_cases outside : start < 0 ∨ length < 0 ∨ (d.text.length : Int) < start + length
  · rw [if_pos outside] at checked
    cases checked
  · omega

/-- A scan that takes place scans a range inside the document, in the context that is restored
there. -/
theorem scan_ok {d d' : Document} {p : Place} {s : ScanSetup} {start length : Int}
    {initStyle : Style} {r : ScanResult} (done : d.scan p s start length initStyle = .ok (d', r)) :
    ∃ o context, start.toNat + length.toNat ≤ d.text.length ∧
      d.contextAt start.toNat initStyle = .ok context ∧
      d' = (d.scanFrom start.toNat length.toNat initStyle o context).1 := by
  unfold Document.scan at done
  cases range : d.checkRange start length with
  | error cause => rw [range] at done; cases done
  | ok =>
    obtain ⟨first, forward, inside⟩ := checkRange_eq_ok range
    cases options : s.options p with
    | error cause => rw [range, options] at done; cases done
    | ok o =>
      cases found : d.contextAt start.toNat initStyle with
      | error cause =>
        simp only [range, options, scanRange, found, Except.map] at done
        cases done
      | ok context =>
        simp only [range, options, scanRange, found, Except.map] at done
        exact ⟨o, context, by omega, rfl, (congrArg Prod.fst (Except.ok.inj done)).symm⟩

theorem Sized.setFoldLevel {d d' : Document} (h : d.Sized) {line : Int} {level : Option Int}
    (done : d.setFoldLevel line level = .ok d') : d'.Sized := by
  unfold Document.setFoldLevel at done
  cases put : putItem d.foldLevels line level with
  | error cause => rw [put] at done; cases done
  | ok levels =>
    rw [put] at done
    obtain rfl := Except.ok.inj done
    exact { h with foldLevels := (length_putItem put).trans h.foldLevels }

theorem Sized.setLineState {d d' : Document} (h : d.Sized) {line : Int} {state : Value}
    (done : d.setLineState line state = .ok d') : d'.Sized := by
  unfold Document.setLineState at done
  cases put : putItem d.lineStates line state with
  | error cause => rw [put] at done; cases done
  | ok states =>
    rw [put] at done
    obtain rfl := Except.ok.inj done
    exact { h with lineStates := (length_putItem put).trans h.lineStates }

theorem Sized.paint {d : Document} (h : d.Sized) (start stop : Int) (style : Style) :
    (d.paint start stop style).1.Sized := by
  unfold Document.paint
  dsimp only
  split
  next => exact h
  next =>
    split
    next => exact h
    next => exact { h with styles := List.length_mapIdx.trans h.styles }

/-- Every reachable document is sized. -/
theorem Reachable.sized {d : Document} (h : Reachable d) : d.Sized := by
  induction h with
  | ofChars text => exact sized_ofChars text
  | replace _ done sized => exact sized.replace done
  | scan _ done sized =>
    obtain ⟨o, context, inside, -, rfl⟩ := scan_ok done
    exact sized.scanFrom inside _ o context
  | setFoldLevel _ done sized => exact sized.setFoldLevel done
  | setLineState _ done sized => exact sized.setLineState done
  | paint _ sized => exact sized.paint _ _ _

end Document

end CssHighlight
