import CssHighlight.Proofs.Comments
import CssHighlight.Proofs.Runs

/-!
# How far comments go

A comment that the scan opens goes on up to the first mark that closes it, or, when a second slash
opened it, up to the end of its line. The character behind the opening mark decides whether it is a
documentation comment, also when the comment ends with that character.
-/
namespace CssHighlight

/-- How far the line goes on at the start of a text, with the line break that ends it. -/
def lineLength : List Char → Nat
  | [] => 0
  | c :: rest => if endsLine c rest then 1 else lineLength rest + 1

/-- How far a comment goes on behind its opening mark: up to the mark that closes it, or the end of
the text; behind two slashes up to the end of the line. -/
def commentExtent (mark : Char) (body : List Char) : Nat :=
  if mark = '*' then (commentLength body).getD body.length else lineLength body

/-- The style of a comment tells its opening mark, and the character behind it. -/
inductive CommentMark (body : List Char) : Char → Style → Prop
  | block : CommentMark body '*' (.ofBlockComment body.head?)
  | line : CommentMark body '/' (.ofLineComment body.head?)

namespace Machine

variable {o : ScanOptions} {c : Char} {rest text : List Char} {start p : Nat} {kind : Style}

/-! ### Block comments -/

/-- Inside a block comment each character is taken that does not begin its closing mark. -/
theorem InRun.block_step (h : InRun o text start p kind 0 none) (block : kind.isBlockComment = true)
    (ahead : text.drop p = c :: rest) (inside : ¬(c = '*' ∧ rest.head? = some '/')) :
    InRun o text start (p + 1) kind 0 none := by
  refine h.stays ahead ?_
  rw [look_block (by rw [h.style]; exact block), if_neg inside]

/-- A block comment ends behind the first mark that closes it. -/
theorem InRun.block_closed {n : Nat} (h : InRun o text start p kind 0 none)
    (block : kind.isBlockComment = true) (closes : commentLength (text.drop p) = some n) :
    BehindRun o text start (p + n) kind := by
  generalize ahead : text.drop p = behind at closes
  induction behind generalizing p n with
  | nil => cases closes
  | cons c rest ih =>
    rw [commentLength] at closes
    split at closes
    next mark =>
      -- The star is looked at; the slash behind it is held, and the style waits for it.
      obtain rfl : 2 = n := Option.some.inj closes
      have looked := @look_block o c rest (scanned o p text) (by rw [h.style]; exact block)
      rw [if_pos mark] at looked
      have star := (h.looked ahead looked h.style rfl rfl rfl rfl).goesOn (absurd · Nat.one_ne_zero)
      obtain ⟨tail, rfl⟩ := List.head?_eq_some_iff.mp mark.2
      exact (star.passed (drop_succ_of_drop ahead)).ends
    next inside =>
      obtain ⟨k, closes', rfl⟩ := Option.map_eq_some_iff.mp closes
      have further := ih (h.block_step block ahead inside) (drop_succ_of_drop ahead) closes'
      rwa [Nat.add_right_comm] at further

/-- A block comment that is not closed goes on up to the end of the text. -/
theorem InRun.block_open (h : InRun o text start p kind 0 none)
    (block : kind.isBlockComment = true) (opens : commentLength (text.drop p) = none) :
    InRun o text start text.length kind 0 none := by
  generalize ahead : text.drop p = behind at opens
  induction behind generalizing p with
  | nil =>
    have same : p = text.length := Nat.le_antisymm h.le (List.drop_eq_nil_iff.mp ahead)
    exact same ▸ h
  | cons c rest ih =>
    rw [commentLength] at opens
    split at opens
    next => cases opens
    next inside =>
      exact ih (h.block_step block ahead inside) (drop_succ_of_drop ahead)
        (Option.map_eq_none_iff.mp opens)

/-! ### Line comments -/

theorem look_lineComment {m : Machine} (line : m.style = .lineComment ∨ m.style = .lineCommentDoc) :
    m.look o c rest = if m.atLineStart then m.leave o c rest else m := by
  rcases line with line | line <;> simp [look, stepRun, line]

/-- A line comment goes on up to the end of its line. -/
theorem InRun.line (h : InRun o text start p kind 0 none)
    (line : kind = .lineComment ∨ kind = .lineCommentDoc)
    (inside : (scanned o p text).atLineStart = (text.drop p).isEmpty) :
    InRun o text start (p + lineLength (text.drop p)) kind 0 none ∧
      LooksForToken o text (p + lineLength (text.drop p)) := by
  generalize ahead : text.drop p = behind at inside
  -- The comment does not end with the line break but in front of the next line's first character.
  have looked {p : Nat} (h : InRun o text start p kind 0 none) (c : Char) (rest : List Char) :=
    @look_lineComment o c rest (scanned o p text) (h.style ▸ line)
  induction behind generalizing p with
  | nil => exact ⟨h, looksForToken_end ahead⟩
  | cons c rest ih =>
    have further := h.stays ahead (by
      rw [looked h, inside, List.isEmpty_cons, if_neg Bool.false_ne_true])
    have behind := drop_succ_of_drop ahead
    have atLineStart := (taken_scanned (o := o) ahead).2
    rw [lineLength]
    split
    next ends =>
      refine ⟨further, ?_⟩
      cases rest with
      | nil => exact looksForToken_end behind
      | cons c' rest' =>
        refine looksForToken_leave behind further.held ?_
        rw [looked further c' rest', atLineStart, lastOfLine, ends, Bool.true_or, if_pos rfl]
    next goesOn =>
      have lands := ih further behind (by rw [atLineStart, lastOfLine]; simp [goesOn])
      rwa [Nat.add_right_comm] at lands

/-! ### Opening marks -/

/-- A comment begins with one of the two marks, both characters of which it holds. -/
theorem BeginsRun.comment (h : BeginsRun o text start c rest kind)
    (comment : kind.isComment = true) :
    c = '/' ∧ ∃ mark body, rest = mark :: body ∧ CommentMark body mark kind ∧
      InRun o text start (start + 2) kind 0 none := by
  have measured : kind.isMeasured = true ∧ kind.isQuoted = false := by
    revert comment
    cases kind <;> simp [Style.isComment, Style.isBlockComment, Style.isMeasured, Style.isQuoted]
  obtain ⟨k, held, after, starts⟩ := h.started measured.1 (by simp [measured.2])
  have style := h.style
  have taking := h.taking
  have behind := drop_succ_of_drop h.ahead
  generalize (scanned o start text).look o c rest = m at starts style taking
  cases starts with
  | blockComment slash star =>
    obtain ⟨body, rfl⟩ := List.head?_eq_some_iff.mp star
    have first := (after ▸ taking rfl).goesOn (absurd · Nat.one_ne_zero)
    exact ⟨slash, '*', body, rfl, style ▸ .block, (first.passed behind).goesOn fun _ => rfl⟩
  | lineComment slash next =>
    obtain ⟨body, rfl⟩ := List.head?_eq_some_iff.mp next
    have first := (after ▸ taking rfl).goesOn (absurd · Nat.one_ne_zero)
    exact ⟨slash, '/', body, rfl, style ▸ .line, (first.passed behind).goesOn fun _ => rfl⟩
  | @string style' quote =>
    have quoted := Style.isQuoted_of_ofQuote quote
    rw [show style' = kind from style, measured.2] at quoted
    cases quoted
  | number | unicodeRange =>
    subst style
    cases comment
  | other plain =>
    rw [style, measured.1] at plain
    cases plain

end Machine

namespace Document

open Machine

variable {p : Place} {s : ScanSetup} {o : ScanOptions}

/-- A comment of a scanned text. -/
theorem ScannedTo.comment {d : Document} (full : d.ScannedTo o d.text.length) {i : Nat} {c : Char}
    {rest : List Char} {style : Style} (h : BeginsRun o d.text i c rest style)
    (comment : style.isComment = true) :
    c = '/' ∧ ∃ mark body, rest = mark :: body ∧ CommentMark body mark style ∧
      d.ScannedRun o i (i + 2 + commentExtent mark body) style := by
  obtain ⟨slash, mark, body, rfl, known, run⟩ := h.comment comment
  have behind : d.text.drop (i + 2) = body := drop_succ_of_drop (drop_succ_of_drop h.ahead)
  refine ⟨slash, mark, body, rfl, known, ?_⟩
  cases known with
  | block =>
    have block : (Style.ofBlockComment body.head?).isBlockComment = true := by
      unfold Style.ofBlockComment
      split <;> rfl
    rw [commentExtent, if_pos rfl]
    cases length : commentLength body with
    | some n => exact full.run_behind (run.block_closed block (behind ▸ length))
    | none =>
      have size := congrArg List.length behind
      rw [List.length_drop] at size
      have atEnd : i + 2 + body.length = d.text.length := by
        have le := run.le
        omega
      rw [Option.getD_none, atEnd]
      exact full.run_ahead (run.block_open block (behind ▸ length))
        (looksForToken_end (List.drop_length))
  | line =>
    have line : Style.ofLineComment body.head? = .lineComment ∨
        Style.ofLineComment body.head? = .lineCommentDoc := by
      unfold Style.ofLineComment
      split
      · exact .inr rfl
      · exact .inl rfl
    have inside := (taken_scanned (o := o) (drop_succ_of_drop h.ahead)).2
    rw [lastOfLine_eq rfl, ← behind] at inside
    obtain ⟨run, token⟩ := run.line line inside
    rw [behind] at run token
    exact full.run_ahead run token

/-- Each comment that the scan opens begins with one of the two marks. It goes on up to the mark
that closes it, or to the end of its line, or to the end of the text, in the style that the
character behind the opening mark tells. -/
theorem scanAll_comments (options : s.options p = .ok o) (text : List Char) :
    ∃ d r, (ofChars text).scanAll p s = .ok (d, r) ∧ d.text = text ∧
      ∀ i c rest style, BeginsRun o text i c rest style → style.isComment = true →
        c = '/' ∧ ∃ mark body, rest = mark :: body ∧ CommentMark body mark style ∧
          d.ScannedRun o i (i + 2 + commentExtent mark body) style := by
  obtain ⟨d, r, scanned, rfl, full⟩ := scannedTo_scanAll options text
  exact ⟨d, r, scanned, rfl, fun i c rest style => full.comment⟩

/-- The slash that is half of an opening mark closes no comment, and a line comment holds both
characters of its line break. -/
theorem scanAll_comments_slash :
    ∃ d r, (ofChars ['/', '*', '/', '*', '/', '/', '/', '!', '\r', '\n', 'a']).scanAll default {} =
        .ok (d, r) ∧
      d.ScannedRun ⟨.standard, true, .builtin⟩ 0 5 .blockComment ∧
      d.ScannedRun ⟨.standard, true, .builtin⟩ 5 10 .lineCommentDoc := by
  have options : ScanSetup.options default {} = .ok ⟨.standard, true, .builtin⟩ := rfl
  obtain ⟨d, r, scanned, -, comments⟩ := scanAll_comments options
    ['/', '*', '/', '*', '/', '/', '/', '!', '\r', '\n', 'a']
  obtain ⟨-, mark, body, same, -, block⟩ := comments 0 '/' _ .blockComment
    ⟨rfl, by decide +kernel, by decide +kernel, by decide +kernel⟩ rfl
  obtain ⟨rfl, rfl⟩ := List.cons.inj same
  obtain ⟨-, mark', body', same', -, line⟩ := comments 5 '/' _ .lineCommentDoc
    ⟨rfl, by decide +kernel, by decide +kernel, by decide +kernel⟩ rfl
  obtain ⟨rfl, rfl⟩ := List.cons.inj same'
  exact ⟨d, r, scanned, block, line⟩

end Document

end CssHighlight
