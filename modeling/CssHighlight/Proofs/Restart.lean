import CssHighlight.Highlight
import CssHighlight.Proofs.Scanned

/-!
# Scanning in pieces

A text that is scanned piece by piece, each piece from the start of a line and behind the style
that the piece before it left there, is styled as if it was scanned at once.
-/
namespace CssHighlight

namespace Document

variable {p : Place} {s : ScanSetup} {o : ScanOptions}

/-- A scan of a range inside the document takes place when its context can be restored. -/
theorem scan_eq (options : s.options p = .ok o) (d : Document) {start n : Nat}
    (fits : start + n ≤ d.text.length) {initStyle : Style} {context : Context}
    (restored : d.contextAt start initStyle = .ok context) :
    d.scan p s start n initStyle = .ok (d.scanFrom start n initStyle o context) := by
  have range : d.checkRange start n = .ok () := by
    unfold checkRange length
    rw [if_neg (by omega)]
  simp only [scan, range, options, scanRange, Int.toNat_natCast, restored, Except.map]

/-- A scan from the start of a line takes place, and brings a scanned document further. -/
theorem ScannedTo.scan {d : Document} {start : Nat} (h : d.ScannedTo o start)
    (options : s.options p = .ok o) (member : start ∈ lineStarts d.text) {n : Nat}
    (fits : start + n ≤ d.text.length) :
    ∃ d' r, d.scan p s start n (d.styleBefore start) = .ok (d', r) ∧ Advances o d d' (start + n) ∧
      r.endStyle = (Machine.scanned o (start + n) d.text).finish.style := by
  obtain ⟨context, restored, extends_⟩ := h.resumes member
  exact ⟨_, _, scan_eq options d fits restored, h.scanFrom member fits (extends_ n),
    (extends_ n).endStyle.symm⟩

/-- Scans the document from `start` on in pieces that end at the given positions, and the last
one at the end of the text. -/
def scanInPieces (p : Place) (s : ScanSetup) (d : Document) (start : Nat) :
    List Nat → Except ScanError (Document × ScanResult)
  | [] => d.scan p s start (d.length - start) (d.styleBefore start)
  | cut :: cuts =>
    match d.scan p s start (cut - start) (d.styleBefore start) with
    | .error cause => .error cause
    | .ok (d, _) => d.scanInPieces p s cut cuts

/-- Whichever line starts a scan in pieces stops at, it comes to the end of the text. -/
theorem ScannedTo.scanInPieces (options : s.options p = .ok o) {cuts : List Nat} {d : Document}
    {start : Nat} (h : d.ScannedTo o start) (member : start ∈ lineStarts d.text)
    (increasing : (start :: cuts).Pairwise (· < ·))
    (starts : ∀ cut ∈ cuts, cut ∈ lineStarts d.text) :
    ∃ d' r, d.scanInPieces p s start cuts = .ok (d', r) ∧ Advances o d d' d.text.length ∧
      r.endStyle = (Machine.scanned o d.text.length d.text).finish.style := by
  induction cuts generalizing d start with
  | nil =>
    have reach : start + (d.text.length - start) = d.text.length := Nat.add_sub_cancel' h.fits
    obtain ⟨d', r, scanned, advances, endStyle⟩ := h.scan options member (Nat.le_of_eq reach)
    rw [reach] at advances endStyle
    refine ⟨d', r, ?_, advances, endStyle⟩
    rw [← scanned, Document.scanInPieces, Int.natCast_sub h.fits]
    rfl
  | cons cut cuts ih =>
    -- The first piece brings the scan to the next line start, from where it goes on.
    obtain ⟨above, increasing⟩ := List.pairwise_cons.mp increasing
    obtain ⟨next, others⟩ := List.forall_mem_cons.mp starts
    have later : start ≤ cut := Nat.le_of_lt (above cut List.mem_cons_self)
    obtain ⟨n, rfl⟩ := Nat.exists_eq_add_of_le later
    obtain ⟨d₁, _, scanned, advances, -⟩ :=
      h.scan options member (le_length_of_mem_lineStarts next)
    have text := advances.text
    obtain ⟨d₂, r, pieces, further, endStyle⟩ :=
      ih advances.toScannedTo (text ▸ next) increasing (text ▸ others)
    rw [text] at further endStyle
    refine ⟨d₂, r, ?_, advances.trans further (le_length_of_mem_lineStarts next), endStyle⟩
    have length : ((start + n : Nat) : Int) - start = n := by omega
    simp only [Document.scanInPieces, length, scanned, pieces]

/-- Scanning a text in pieces leaves the document that scanning it at once leaves, and ends in the
same style. -/
theorem scanInPieces_eq_scanAll (options : s.options p = .ok o) (text : List Char)
    (cuts : List Nat) (increasing : (0 :: cuts).Pairwise (· < ·))
    (starts : ∀ cut ∈ cuts, cut ∈ lineStarts text) :
    ∃ d r r', (ofChars text).scanInPieces p s 0 cuts = .ok (d, r) ∧
      (ofChars text).scanAll p s = .ok (d, r') ∧ r.endStyle = r'.endStyle := by
  have fresh := scannedTo_ofChars o text
  have front : 0 ∈ lineStarts text := List.mem_cons_self
  obtain ⟨d, r, pieces, advances, endStyle⟩ :=
    fresh.scanInPieces options front increasing starts
  obtain ⟨d', r', whole, advances', endStyle'⟩ :=
    fresh.scan options front (Nat.le_of_eq (Nat.zero_add text.length))
  rw [Nat.zero_add] at advances' endStyle'
  obtain rfl := advances.unique advances'
  exact ⟨d, r, r', pieces, whole, endStyle.trans endStyle'.symm⟩

/-- A comment and a string that go on behind the line breaks at which the scan stops. -/
theorem scanInPieces_eq_scanAll_comment :
    let text := ['a', '{', '/', '*', '\n', '*', '/', 'b', ':', '"', '\r', '\n', '"', '}', '\n']
    let cuts := [5, 12, 15]
    (∀ cut ∈ cuts, cut ∈ lineStarts text) ∧
      ∃ d r r', (ofChars text).scanInPieces default {} 0 cuts = .ok (d, r) ∧
        (ofChars text).scanAll default {} = .ok (d, r') ∧ r.endStyle = r'.endStyle :=
  ⟨by decide, scanInPieces_eq_scanAll (o := ⟨.standard, true, .builtin⟩) rfl _ _ (by decide)
    (by decide)⟩

end Document

end CssHighlight
