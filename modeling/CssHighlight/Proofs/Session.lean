import CssHighlight.Proofs.Editing

/-!
# Sessions

A session is a sequence of edits, each with the scan behind it. As long as no edit changes the
first solid character from its line on, the document is fully scanned all the time.
-/
namespace CssHighlight

namespace Document

/-- Edits one after the other, each of which keeps the first solid character from its line on. -/
inductive Session : List Char → List Edit → Prop
  | done (text : List Char) : Session text []
  | edit {text : List Char} {e : Edit} {edits : List Edit} (fits : e.Fits text)
      (solid : e.KeepsSolid text) (others : Session (e.apply text) edits) :
      Session text (e :: edits)

theorem Session.take {text : List Char} {edits : List Edit} (h : Session text edits) (n : Nat) :
    Session text (edits.take n) := by
  induction h generalizing n with
  | done text =>
    rw [List.take_nil]
    exact .done text
  | edit fits solid _ ih =>
    cases n with
    | zero => exact .done _
    | succ n => exact .edit fits solid (ih n)

variable {p : Place} {s : ScanSetup} {o : ScanOptions}

theorem ScannedTo.edit (options : s.options p = .ok o) {d : Document}
    (h : d.ScannedTo o d.text.length) {e : Edit} (fits : e.Fits d.text)
    (solid : e.KeepsSolid d.text) :
    ∃ d', d.edit p s e = some d' ∧ d'.text = e.apply d.text ∧ d'.ScannedTo o d'.text.length := by
  obtain ⟨f, -, -, text, fresh⟩ := scannedTo_scanAll options (e.apply d.text)
  have same := h.sameAbove_of_keepsMarks fresh text fits solid.keepsMarks
  exact h.toRegular.scannedTo_edit options fits fresh text same

/-- A session keeps a fully scanned document fully scanned. -/
theorem ScannedTo.session (options : s.options p = .ok o) {text : List Char} {edits : List Edit}
    (session : Session text edits) {d : Document} (same : d.text = text)
    (h : d.ScannedTo o d.text.length) :
    ∃ d', edits.foldlM (Document.edit p s) d = some d' ∧
      d'.text = edits.foldl (fun text e => e.apply text) text ∧
      d'.ScannedTo o d'.text.length := by
  induction session generalizing d with
  | done => exact ⟨d, rfl, same, h⟩
  | edit fits solid _ ih =>
    subst same
    obtain ⟨d₁, edited, text, full⟩ := h.edit options fits solid
    obtain ⟨d₂, others, same, full'⟩ := ih text full
    refine ⟨d₂, ?_, same, full'⟩
    rw [List.foldlM_cons, edited]
    exact others

/-- After every edit of a session, the document shows what a scan of its text shows. -/
theorem session_sameHighlighting (options : s.options p = .ok o) (text : List Char)
    {edits : List Edit} (session : Session text edits) :
    ∃ d r, (ofChars text).scanAll p s = .ok (d, r) ∧ ∀ n, ∃ d' f r',
      (edits.take n).foldlM (Document.edit p s) d = some d' ∧
      (ofChars ((edits.take n).foldl (fun text e => e.apply text) text)).scanAll p s =
        .ok (f, r') ∧
      SameHighlighting d' f := by
  obtain ⟨d, r, scanned, same, full⟩ := scannedTo_scanAll options text
  refine ⟨d, r, scanned, fun n => ?_⟩
  obtain ⟨d', edited, text', full'⟩ := full.session options (session.take n) same
  obtain ⟨f, r', fresh, same', full''⟩ := scannedTo_scanAll options
    ((edits.take n).foldl (fun text e => e.apply text) text)
  exact ⟨d', f, r', edited, fresh, full'.sameHighlighting full'' (text'.trans same'.symm)⟩

/-- A session that takes the line feed behind a carriage return away, opens a comment, and closes
it in front of an empty last line. -/
theorem session_sameHighlighting_comment :
    let text := ['a', '\r', '\n', 'b', '\n', 'c']
    let edits : List Edit := [⟨2, 3, []⟩, ⟨3, 3, ['/', '*']⟩, ⟨7, 7, ['*', '/', '\r']⟩]
    ∃ d r, (ofChars text).scanAll default {} = .ok (d, r) ∧ ∀ n, ∃ d' f r',
      (edits.take n).foldlM (Document.edit default {}) d = some d' ∧
      (ofChars ((edits.take n).foldl (fun text e => e.apply text) text)).scanAll default {} =
        .ok (f, r') ∧
      SameHighlighting d' f :=
  session_sameHighlighting (o := ⟨.standard, true, .builtin⟩) rfl _
    (.edit ⟨by decide, by decide⟩ (by decide) (.edit ⟨by decide, by decide⟩ (by decide)
      (.edit ⟨by decide, by decide⟩ (by decide) (.done _))))

end Document

end CssHighlight
