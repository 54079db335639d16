import CssHighlight.Proofs.Runs
import CssHighlight.Proofs.Tracking

/-!
# How far strings and bare addresses go

A reader that takes the character behind a backslash with it finds the end of a string or of a bare
address. The scan finds the same end, although it counts the digits of escape sequences and looks
once more at the character that ends one: no character of an escape sequence closes anything.
-/
namespace CssHighlight

/-! ### Reading up to the closing mark -/

/-- How many characters behind a backslash belong to its escape sequence: up to six hexadecimal
digits, or one other character. -/
def escapeLength (behind : List Char) : Nat :=
  if behind.head?.any isHexDigit then min 6 (behind.takeWhile isHexDigit).length
  else min 1 behind.length

/-- Reads up to a closing mark. A backslash that no line break follows takes the next character with
it; of each character that is read the result tells whether it is such a backslash. -/
def readQuoted (close : Char) : List Char → List Bool
  | [] => []
  | [c] => if c = close then [] else [c == '\\']
  | c :: x :: rest =>
    if c = close then []
    else if c = '\\' ∧ isLineBreak x = false then true :: false :: readQuoted close rest
    else false :: readQuoted close (x :: rest)

/-- A position belongs to an escape sequence, which begins with one of the backslashes that were
found. -/
def Escaped (found : List Bool) (body : List Char) (k : Nat) : Prop :=
  ∃ b, found[b]? = some true ∧ b ≤ k ∧ k ≤ b + escapeLength (body.drop (b + 1))

/-- Reading by whole escape sequences. -/
inductive Reading (close : Char) : List Char → List Bool → Prop
  | finished : Reading close [] []
  | closed {rest : List Char} : Reading close (close :: rest) []
  | plain {c : Char} {rest : List Char} {found : List Bool} (other : c ≠ close)
      (plain : c = '\\' → rest.head?.any isLineBreak = true) (further : Reading close rest found) :
      Reading close (c :: rest) (false :: found)
  | escape {rest : List Char} {found : List Bool} (escapes : rest.head?.any isLineBreak = false)
      (further : Reading close (rest.drop (escapeLength rest)) found) :
      Reading close ('\\' :: rest) (true :: (List.replicate (escapeLength rest) false ++ found))

section Reading

variable {close c : Char} {rest body : List Char} {found : List Bool} {k : Nat}

theorem escapeLength_digit (digit : isHexDigit c = true) :
    escapeLength (c :: rest) = min 5 (rest.takeWhile isHexDigit).length + 1 := by
  rw [escapeLength, if_pos (by simpa using digit), List.takeWhile_cons_of_pos digit,
    List.length_cons]
  omega

theorem escapeLength_other (other : isHexDigit c = false) : escapeLength (c :: rest) = 1 := by
  rw [escapeLength, if_neg (by simpa using other), List.length_cons]
  omega

theorem readQuoted_close : readQuoted close (close :: rest) = [] := by
  cases rest <;> simp [readQuoted]

theorem readQuoted_plain (other : c ≠ close)
    (plain : c = '\\' → rest.head?.any isLineBreak = true) :
    readQuoted close (c :: rest) = false :: readQuoted close rest := by
  cases rest with
  | nil =>
    have noMark : c ≠ '\\' := fun mark => nomatch plain mark
    simp [readQuoted, other, noMark]
  | cons x rest =>
    have noEscape : ¬(c = '\\' ∧ isLineBreak x = false) := by
      rintro ⟨mark, goesOn⟩
      exact Bool.eq_false_iff.mp goesOn (plain mark)
    rw [readQuoted, if_neg other, if_neg noEscape]

/-- Hexadecimal digits are read one by one. -/
theorem readQuoted_digits (plain : isHexDigit close = false) {n : Nat}
    (le : n ≤ (rest.takeWhile isHexDigit).length) :
    readQuoted close rest = List.replicate n false ++ readQuoted close (rest.drop n) := by
  induction n generalizing rest with
  | zero => rfl
  | succ n ih =>
    cases rest with
    | nil => cases le
    | cons c rest =>
      rw [List.takeWhile_cons] at le
      split at le
      next digit =>
        have other : c ≠ close := by
          rintro rfl
          exact Bool.eq_false_iff.mp plain digit
        have noMark : c ≠ '\\' := by
          rintro rfl
          cases digit
        rw [readQuoted_plain other (absurd · noMark), ih (Nat.le_of_succ_le_succ le)]
        rfl
      next => cases le

theorem readQuoted_escape (plain : isHexDigit close = false) (mark : close ≠ '\\')
    (escapes : rest.head?.any isLineBreak = false) :
    readQuoted close ('\\' :: rest) = true :: (List.replicate (escapeLength rest) false ++
      readQuoted close (rest.drop (escapeLength rest))) := by
  cases rest with
  | nil => simp [readQuoted, mark.symm, escapeLength]
  | cons x rest =>
    rw [readQuoted, if_neg mark.symm, if_pos ⟨rfl, by simpa using escapes⟩]
    cases digit : isHexDigit x with
    | true =>
      -- The reader takes one digit with the backslash and reads the others as what they are.
      rw [escapeLength_digit digit, readQuoted_digits plain (Nat.min_le_right 5 _)]
      rfl
    | false =>
      rw [escapeLength_other digit]
      rfl

theorem reading_readQuoted (plain : isHexDigit close = false) (mark : close ≠ '\\') :
    (body : List Char) → Reading close body (readQuoted close body)
  | [] => .finished
  | c :: rest => by
    by_cases closes : c = close
    · rw [closes, readQuoted_close]
      exact .closed
    by_cases escapes : c = '\\' ∧ rest.head?.any isLineBreak = false
    · rw [escapes.1, readQuoted_escape plain mark escapes.2]
      exact .escape escapes.2 (reading_readQuoted plain mark _)
    · have plain' : c = '\\' → rest.head?.any isLineBreak = true := by
        intro backslash
        simpa using fun goesOn => escapes ⟨backslash, goesOn⟩
      rw [readQuoted_plain closes plain']
      exact .plain closes plain' (reading_readQuoted plain mark rest)
termination_by body => body.length

theorem escaped_plain : Escaped (false :: found) (c :: rest) k ↔
    ∃ j, k = j + 1 ∧ Escaped found rest j := by
  constructor
  · rintro ⟨b, backslash, from_, upTo⟩
    cases b with
    | zero => cases backslash
    | succ b =>
      obtain ⟨j, rfl⟩ : ∃ j, k = j + 1 := ⟨k - 1, by omega⟩
      rw [List.drop_succ_cons] at upTo
      exact ⟨j, rfl, b, backslash, Nat.le_of_succ_le_succ from_, by omega⟩
  · rintro ⟨j, rfl, b, backslash, from_, upTo⟩
    refine ⟨b + 1, backslash, Nat.succ_le_succ from_, ?_⟩
    rw [List.drop_succ_cons]
    omega

theorem escaped_escape : Escaped (true :: (List.replicate (escapeLength rest) false ++ found))
      (c :: rest) k ↔
    k ≤ escapeLength rest ∨
      ∃ j, k = j + (escapeLength rest + 1) ∧ Escaped found (rest.drop (escapeLength rest)) j := by
  constructor
  · rintro ⟨b, backslash, from_, upTo⟩
    cases b with
    | zero => exact .inl (by simpa using upTo)
    | succ b =>
      rw [List.getElem?_cons_succ] at backslash
      rw [List.drop_succ_cons] at upTo
      -- What the first backslash takes with it is no backslash that takes another character.
      have behind : escapeLength rest ≤ b := by
        refine Nat.le_of_not_lt fun inside => ?_
        rw [List.getElem?_append_left (by simpa using inside),
          List.getElem?_replicate_of_lt inside] at backslash
        cases backslash
      obtain ⟨b, rfl⟩ := Nat.exists_eq_add_of_le behind
      obtain ⟨j, rfl⟩ : ∃ j, k = j + (escapeLength rest + 1) :=
        ⟨k - (escapeLength rest + 1), by omega⟩
      rw [List.getElem?_append_right (by simp), List.length_replicate,
        Nat.add_sub_cancel_left] at backslash
      refine .inr ⟨j, rfl, b, backslash, by omega, ?_⟩
      rw [List.drop_drop, ← Nat.add_assoc]
      omega
  · rintro (inside | ⟨j, rfl, b, backslash, from_, upTo⟩)
    · exact ⟨0, rfl, Nat.zero_le k, by simpa using inside⟩
    · refine ⟨escapeLength rest + b + 1, ?_, by omega, ?_⟩
      · rw [List.getElem?_cons_succ, List.getElem?_append_right (by simp), List.length_replicate,
          Nat.add_sub_cancel_left, backslash]
      · rw [List.drop_drop, ← Nat.add_assoc] at upTo
        rw [List.drop_succ_cons]
        omega

/-- Escape sequences do not reach beyond what is read. -/
theorem Reading.escaped_lt (h : Reading close body found) (escaped : Escaped found body k) :
    k < found.length := by
  induction h generalizing k with
  | finished | closed =>
    obtain ⟨b, backslash, -⟩ := escaped
    cases backslash
  | plain _ _ _ ih =>
    obtain ⟨j, rfl, further⟩ := escaped_plain.mp escaped
    exact Nat.succ_lt_succ (ih further)
  | escape _ _ ih =>
    rw [List.length_cons, List.length_append, List.length_replicate]
    rcases escaped_escape.mp escaped with inside | ⟨j, rfl, further⟩
    · omega
    · have lt := ih further
      omega

/-- Reading stops at the closing mark, or at the end of the text. -/
theorem Reading.stops (h : Reading close body found) :
    body.drop found.length = [] ∨ (body.drop found.length).head? = some close := by
  induction h with
  | finished => exact .inl rfl
  | closed => exact .inr rfl
  | plain _ _ _ ih => exact ih
  | escape _ _ ih =>
    rw [List.length_cons, List.length_append, List.length_replicate, List.drop_succ_cons,
      ← List.drop_drop]
    exact ih

end Reading

namespace Machine

/-- The character that closes a string or a bare address. -/
inductive ClosedBy : Style → Char → Prop
  | single : ClosedBy .singleQuoted '\''
  | double : ClosedBy .doubleQuoted '"'
  | address : ClosedBy .url ')'

variable {o : ScanOptions} {c close : Char} {rest text : List Char} {m : Machine}
  {start p left : Nat} {style : Style} {found : List Bool}

theorem ClosedBy.isQuoted (closes : ClosedBy style close) : style.isQuoted = true := by
  cases closes <;> rfl

theorem ClosedBy.reading (closes : ClosedBy style close) (body : List Char) :
    Reading close body (readQuoted close body) := by
  cases closes <;> exact reading_readQuoted rfl (by decide) body

/-! ### Looking at a character -/

theorem stepQuoted_plain (plain : o.dialect.Plain) (closes : ClosedBy m.style close)
    (other : c ≠ close) (noEscape : c = '\\' → rest.head?.any isLineBreak = true) :
    m.stepQuoted o c rest = m := by
  have notAddress : ¬(c = ')' ∧ m.style = .url) := by
    rintro ⟨rfl, address⟩
    rw [address] at closes
    cases closes
    exact other rfl
  have notQuote : closingQuote m.style ≠ some c := by
    generalize m.style = style at closes
    cases closes
    · exact fun quote => other (Option.some.inj quote).symm
    · exact fun quote => other (Option.some.inj quote).symm
    · nofun
  rw [stepQuoted]
  by_cases backslash : c = '\\'
  · rw [if_pos backslash, if_pos (noEscape backslash)]
  · rw [if_neg backslash, if_neg notAddress, if_neg notQuote, if_neg (by simp [plain.leads])]

theorem stepQuoted_escape (escapes : rest.head?.any isLineBreak = false) :
    m.stepQuoted o '\\' rest = ((m.update fun context => { context with escape :=
      ⟨m.style, if rest.head?.any isHexDigit then escapeDigits else 1⟩ }).start .escapeChar
        ('\\' :: rest)).hold 1 := by
  rw [stepQuoted, if_pos rfl, if_neg (by simp [escapes])]

theorem stepQuoted_quote (quote : closingQuote m.style = some c) :
    m.stepQuoted o c rest = m.thenStart .default := by
  have notAddress : ¬(c = ')' ∧ m.style = .url) := by
    rintro ⟨-, address⟩
    rw [address] at quote
    cases quote
  have noBackslash : c ≠ '\\' := by
    rintro rfl
    revert quote
    cases m.style <;> simp [closingQuote]
  rw [stepQuoted, if_neg noBackslash, if_neg notAddress, if_pos quote]

theorem stepQuoted_address (address : m.style = .url) :
    m.stepQuoted o ')' rest = m.leave o ')' rest := by
  rw [stepQuoted, if_neg (by decide), if_pos ⟨rfl, address⟩]

/-! ### What a position is styled as -/

section Settled

variable (o : ScanOptions) (text : List Char)

/-- A scan of the whole text gives a position this style. -/
def SettledAs (p : Nat) (style : Style) : Prop :=
  (scanned o text.length text).styles[p]? = some style

end Settled

/-- That a character belongs to a string, an address or an escape sequence is settled when it is
taken. -/
theorem settledAs_take (ahead : text.drop p = c :: rest)
    (taken : scanned o (p + 1) text = m.take o c rest)
    (kept : m.style.isQuoted = true ∨ m.style = .escapeChar) : SettledAs o text p m.style := by
  -- A name may get another style later, but neither becomes nor was one of these.
  have lasting : Lasting (· == m.style) := by
    generalize m.style = style at kept
    refine .of_ofRun ?_ fun other run => beq_eq_false_iff_ne.mpr ?_
    · rcases kept with quoted | rfl
      · cases style <;> first | rfl | cases quoted
      · rfl
    · rintro rfl
      revert run kept
      cases other <;> simp [Style.isQuoted, Style.ofRun, Style.isName]
  have settled := lasting_style (o := o) lasting (lt_of_drop ahead)
  rw [taken, latest_take, List.head?_cons, Option.map_some, beq_self_eq_true] at settled
  obtain ⟨style, same, equal⟩ := Option.map_eq_some_iff.mp settled
  rw [beq_iff_eq] at equal
  rw [SettledAs, same, equal]

theorem Taking.settledAs {kind : Style} {held : Nat} {after : Option Style}
    (h : Taking o text start p kind held after m)
    (kept : kind.isQuoted = true ∨ kind = .escapeChar) : SettledAs o text p kind := by
  obtain ⟨c, rest, ahead, taken⟩ := h.taken
  have style := h.style
  subst style
  exact settledAs_take ahead taken kept

/-! ### Inside a string or an address -/

/-- The scan has come to a position inside a string or an address, outside escape sequences. It may
be that it has to look at the next character to see that an escape sequence has ended. -/
structure InQuoted (o : ScanOptions) (text : List Char) (p : Nat) (style : Style) : Prop where
  le : p ≤ text.length
  looks : ∀ c rest, text.drop p = c :: rest → (scanned o p text).held = 0 ∧
    ∃ m : Machine, m.style = style ∧ m.held = 0 ∧ m.after = none ∧
      (scanned o p text).look o c rest = m.stepQuoted o c rest ∧
      ∃ left, m.leave o c rest =
        ((scanned o p text).update (Context.withDigits left)).leave o c rest

theorem inQuoted_end (le : p ≤ text.length) (ahead : text.drop p = []) : InQuoted o text p style :=
  ⟨le, fun _ _ more => nomatch ahead.symm.trans more⟩

theorem inQuoted_of_style (le : p ≤ text.length) (same : (scanned o p text).style = style)
    (quoted : style.isQuoted = true) (held : (scanned o p text).held = 0) :
    InQuoted o text p style :=
  ⟨le, fun _ _ _ => ⟨held, scanned o p text, same, held, (steady_scanned o p text).idle held,
    look_quoted (same ▸ quoted), (scanned o p text).context.escape.digitsLeft, rfl⟩⟩

/-- A character that neither closes the string nor escapes another one is taken. -/
theorem InQuoted.plain (h : InQuoted o text p style) (plain : o.dialect.Plain)
    (closes : ClosedBy style close) (ahead : text.drop p = c :: rest) (other : c ≠ close)
    (noEscape : c = '\\' → rest.head?.any isLineBreak = true) :
    InQuoted o text (p + 1) style ∧ SettledAs o text p style := by
  obtain ⟨held, m, rfl, free, idle, looked, -⟩ := h.looks c rest ahead
  have taken := scanned_looked ahead held
  rw [looked, stepQuoted_plain plain closes other noEscape] at taken
  refine ⟨?_, settledAs_take ahead taken (.inl closes.isQuoted)⟩
  cases take_taken o c rest m with
  | released _ waits =>
    rw [idle] at waits
    cases waits
  | goesOn _ style _ held =>
    rw [← taken] at style held
    exact inQuoted_of_style (lt_of_drop ahead) style closes.isQuoted (held.trans free)

/-! ### Escape sequences -/

/-- The scan has come to a position in an escape sequence, which may have so many digits more. -/
structure InEscape (o : ScanOptions) (text : List Char) (start p : Nat) (outer : Style)
    (left : Nat) : Prop extends InRun o text start p .escapeChar 0 none where
  escape : (scanned o p text).context.escape = ⟨outer, left + 1⟩

/-- Nothing is left of a style that starts where the scan leaves its run. -/
theorem leave_start (style : Style) (m : Machine) :
    (m.start style (c :: rest)).leave o c rest = m.leave o c rest := by
  have same : (m.start style (c :: rest)).start .default (c :: rest) =
      m.start .default (c :: rest) := rfl
  rw [leave, leave, same]

theorem look_escape (escape : m.style = .escapeChar) : m.look o c rest =
    if m.context.escape.digitsLeft - 1 ≤ 0 ∨ isHexDigit c = false then
      ((m.update (Context.withDigits (m.context.escape.digitsLeft - 1))).start
        m.context.escape.outer (c :: rest)).stepRun o c rest
    else m.update (Context.withDigits (m.context.escape.digitsLeft - 1)) := by
  rw [look, if_pos escape]
  rfl

/-- The character that ends an escape sequence is looked at once more. -/
theorem InEscape.ends (h : InEscape o text start p style left) (quoted : style.isQuoted = true)
    (ends : left = 0 ∨ ∀ c rest, text.drop p = c :: rest → isHexDigit c = false) :
    InQuoted o text p style := by
  refine ⟨h.le, fun c rest ahead => ⟨h.held, ?_⟩⟩
  have looked := @look_escape o c rest _ h.style
  rw [h.escape, if_pos] at looked
  · exact ⟨((scanned o p text).update (Context.withDigits (left + 1 - 1))).start style (c :: rest),
      rfl, h.held, h.after, looked.trans (stepRun_quoted quoted), _, leave_start style _⟩
  · rcases ends with rfl | ends
    · exact .inl (Int.le_refl 0)
    · exact .inr (ends c rest ahead)

theorem InEscape.digit (h : InEscape o text start p style (left + 1))
    (ahead : text.drop p = c :: rest) (digit : isHexDigit c = true) :
    InEscape o text start (p + 1) style left ∧ SettledAs o text p .escapeChar := by
  have looked := @look_escape o c rest _ h.style
  rw [h.escape, if_neg (by simp [digit])] at looked
  have taking := h.looked ahead looked h.style h.held h.after rfl rfl
  have escape : (scanned o (p + 1) text).context.escape = ⟨style, left + 1⟩ := by
    rw [taking.escape]
    simp [update, Context.withDigits, h.escape]
  exact ⟨{ taking.goesOn fun _ => rfl with escape := escape }, taking.settledAs (.inr rfl)⟩

/-- As many digits are taken as may and do follow. -/
theorem InEscape.digits (h : InEscape o text start p style left) (quoted : style.isQuoted = true) :
    InQuoted o text (p + min left ((text.drop p).takeWhile isHexDigit).length) style ∧
      ∀ k < min left ((text.drop p).takeWhile isHexDigit).length,
        SettledAs o text (p + k) .escapeChar := by
  induction left generalizing p with
  | zero =>
    rw [Nat.zero_min]
    exact ⟨h.ends quoted (.inl rfl), nofun⟩
  | succ left ih =>
    rcases ahead : text.drop p with _ | ⟨c, rest⟩
    · exact ⟨inQuoted_end h.le ahead, nofun⟩
    rw [List.takeWhile_cons]
    split
    next digit =>
      obtain ⟨further, first⟩ := h.digit ahead digit
      obtain ⟨behind, others⟩ := ih further
      rw [drop_succ_of_drop ahead] at behind others
      rw [List.length_cons, Nat.succ_min_succ]
      refine ⟨by rwa [Nat.add_right_comm] at behind, fun k lt => ?_⟩
      cases k with
      | zero => exact first
      | succ k =>
        have settled := others k (Nat.lt_of_succ_lt_succ lt)
        rwa [Nat.add_right_comm] at settled
    next other =>
      refine ⟨h.ends quoted (.inr fun c' rest' more => ?_), nofun⟩
      obtain ⟨rfl, -⟩ := List.cons.inj (ahead.symm.trans more)
      exact Bool.eq_false_iff.mpr other

/-- A backslash that no line break follows takes a whole escape sequence with it. -/
theorem InQuoted.escape (h : InQuoted o text p style) (quoted : style.isQuoted = true)
    (ahead : text.drop p = '\\' :: rest) (escapes : rest.head?.any isLineBreak = false) :
    InQuoted o text (p + (escapeLength rest + 1)) style ∧
      ∀ k ≤ escapeLength rest, SettledAs o text (p + k) .escapeChar := by
  obtain ⟨held, m, rfl, free, idle, looked, -⟩ := h.looks _ rest ahead
  rw [stepQuoted_escape escapes] at looked
  have taking : Taking o text p p .escapeChar 1 none ((scanned o p text).look o '\\' rest) := by
    rw [looked]
    exact {
      taken := ⟨_, rest, ahead, by rw [scanned_looked ahead held, looked]⟩
      style := rfl
      held := rfl
      after := idle
      runText := ahead.symm
      length := rfl
      unbroken := fun q lt below => absurd lt (Nat.not_lt.mpr (Nat.le_of_lt_succ below)) }
  have backslash := taking.goesOn (absurd · Nat.one_ne_zero)
  have first := taking.settledAs (.inr rfl)
  have behind := drop_succ_of_drop ahead
  cases rest with
  | nil =>
    refine ⟨inQuoted_end backslash.le behind, fun k le => ?_⟩
    obtain rfl := Nat.le_zero.mp le
    exact first
  | cons x tail =>
    have passing := backslash.passed behind
    have second := passing.settledAs (.inr rfl)
    -- The first of the digits is held, so the count is of those behind it.
    obtain ⟨left, digits, length⟩ : ∃ left : Nat,
        (if isHexDigit x then escapeDigits else 1) = (left + 1 : Int) ∧
        escapeLength (x :: tail) = min left (tail.takeWhile isHexDigit).length + 1 := by
      cases digit : isHexDigit x with
      | true => exact ⟨5, rfl, escapeLength_digit digit⟩
      | false => exact ⟨0, rfl, by rw [escapeLength_other digit, Nat.zero_min]⟩
    have escape : (scanned o (p + 2) text).context.escape = ⟨m.style, left + 1⟩ := by
      rw [passing.escape]
      show (scanned o (p + 1) text).context.escape = _
      rw [taking.escape, looked, ← digits]
      rfl
    have inside : InEscape o text p (p + 2) m.style left :=
      { passing.goesOn fun _ => rfl with escape := escape }
    obtain ⟨further, others⟩ := inside.digits quoted
    rw [drop_succ_of_drop behind] at further others
    rw [length]
    refine ⟨by rwa [show p + (min left (tail.takeWhile isHexDigit).length + 1 + 1) =
      p + 2 + min left (tail.takeWhile isHexDigit).length by omega], fun k le => ?_⟩
    match k with
    | 0 => exact first
    | 1 => exact second
    | k + 2 =>
      have settled := others k (by omega)
      rwa [Nat.add_right_comm] at settled

/-- What the reader reads is styled, and the scan comes to the character at which the reader
stops. -/
theorem InQuoted.reads (plain : o.dialect.Plain) (closes : ClosedBy style close)
    (h : InQuoted o text p style) (reading : Reading close (text.drop p) found) :
    InQuoted o text (p + found.length) style ∧ ∀ k < found.length,
      (Escaped found (text.drop p) k → SettledAs o text (p + k) .escapeChar) ∧
      (¬Escaped found (text.drop p) k → SettledAs o text (p + k) style) := by
  generalize ahead : text.drop p = body at reading
  -- By induction on the reading the scan is followed from one escape sequence to the next.
  induction reading generalizing p with
  | finished | closed => exact ⟨h, nofun⟩
  | plain other noEscape _ ih =>
    obtain ⟨further, first⟩ := h.plain plain closes ahead other noEscape
    obtain ⟨behind, others⟩ := ih further (drop_succ_of_drop ahead)
    refine ⟨by rwa [Nat.add_right_comm] at behind, fun k lt => ?_⟩
    rw [escaped_plain]
    cases k with
    | zero => exact ⟨fun ⟨_, same, _⟩ => absurd same.symm (Nat.succ_ne_zero _), fun _ => first⟩
    | succ k =>
      obtain ⟨inEscape, outside⟩ := others k (Nat.lt_of_succ_lt_succ lt)
      rw [Nat.add_right_comm] at inEscape outside
      refine ⟨?_, fun none => outside fun escaped => none ⟨k, rfl, escaped⟩⟩
      rintro ⟨j, same, escaped⟩
      exact inEscape (Nat.succ.inj same ▸ escaped)
  | @escape rest found escapes _ ih =>
    obtain ⟨further, first⟩ := h.escape closes.isQuoted ahead escapes
    have behind : text.drop (p + (escapeLength rest + 1)) = rest.drop (escapeLength rest) := by
      rw [← List.drop_drop, ahead, List.drop_succ_cons]
    obtain ⟨last, others⟩ := ih further behind
    rw [List.length_cons, List.length_append, List.length_replicate]
    refine ⟨?_, fun k lt => ?_⟩
    · rwa [show p + (escapeLength rest + found.length + 1) =
        p + (escapeLength rest + 1) + found.length by omega]
    rw [escaped_escape]
    by_cases le : k ≤ escapeLength rest
    · exact ⟨fun _ => first k le, fun none => absurd (.inl le) none⟩
    obtain ⟨k, rfl⟩ : ∃ j, k = j + (escapeLength rest + 1) :=
      ⟨k - (escapeLength rest + 1), by omega⟩
    obtain ⟨inEscape, outside⟩ := others k (by omega)
    rw [Nat.add_assoc, Nat.add_comm (escapeLength rest + 1)] at inEscape outside
    refine ⟨?_, fun none => outside fun escaped => none (.inr ⟨k, rfl, escaped⟩)⟩
    rintro (inside | ⟨j, same, escaped⟩)
    · omega
    · exact inEscape (Nat.add_right_cancel same ▸ escaped)

/-! ### Beginnings -/

theorem closedBy_of_ofQuote (quote : Style.ofQuote c = some style) : ClosedBy style c := by
  unfold Style.ofQuote at quote
  split at quote <;> cases quote
  · exact .single
  · exact .double

section Beginnings

variable (o : ScanOptions) (text : List Char) (i : Nat)

/-- The scan opens a string at a quote: it begins a run there, and is in no string before. -/
structure OpensString (c : Char) (rest : List Char) (kind : Style) : Prop
    extends BeginsRun o text i c rest kind where
  quote : Style.ofQuote c = some kind
  outside : (scanned o i text).style.isQuoted = false ∧ (scanned o i text).style ≠ .escapeChar

/-- The scan has just come into a bare address, of which no character is taken yet. -/
structure EntersUrl : Prop where
  le : i ≤ text.length
  style : (scanned o i text).style = .url
  runLength : (scanned o i text).runLength = 0

end Beginnings

theorem OpensString.first {i : Nat} (h : OpensString o text i c rest style) :
    InQuoted o text (i + 1) style ∧ SettledAs o text i style := by
  have quoted := Style.isQuoted_of_ofQuote h.quote
  have measured := Style.isMeasured_of_ofQuote h.quote
  obtain ⟨k, held, after, starts⟩ := h.started measured fun _ => h.outside
  have looked := starts.string_of_style h.style quoted measured
  have run := h.toBeginsRun.first held after looked
  exact ⟨inQuoted_of_style run.le run.style quoted run.held,
    (h.taking (by rw [looked]; rfl)).settledAs (.inl quoted)⟩

theorem EntersUrl.first {i : Nat} (h : EntersUrl o text i) : InQuoted o text i .url :=
  inQuoted_of_style h.le h.style rfl (held_scanned h.le h.runLength)

/-! ### Endings -/

/-- The quote that closes a string belongs to it. -/
theorem InQuoted.closed (h : InQuoted o text p style) (closes : ClosedBy style close)
    (string : style ≠ .url) (ahead : text.drop p = close :: rest) :
    LooksForToken o text (p + 1) ∧ SettledAs o text p style := by
  obtain ⟨held, m, rfl, free, idle, looked, -⟩ := h.looks close rest ahead
  -- The quote is taken into the string, and the style that waits for it is that outside all runs.
  have quote : closingQuote m.style = some close := by
    generalize m.style = style at closes string
    cases closes with
    | single | double => rfl
    | address => exact absurd rfl string
  have taken := scanned_looked ahead held
  rw [looked, stepQuoted_quote quote] at taken
  refine ⟨?_, settledAs_take (m := m.thenStart .default) ahead taken (.inl closes.isQuoted)⟩
  cases take_taken o close rest (m.thenStart .default) with
  | goesOn waits => cases waits free
  | released _ waits style runLength held =>
    rw [← taken] at style runLength held
    exact looksForToken_default (lt_of_drop ahead) (style.trans (Option.some.inj waits).symm) held
      runLength

/-- The parenthesis that closes an address is the token behind it. -/
theorem InQuoted.address (h : InQuoted o text p .url)
    (stops : text.drop p = [] ∨ (text.drop p).head? = some ')') : LooksForToken o text p := by
  rcases stops with atEnd | closes
  · exact looksForToken_end atEnd
  intro c rest ahead
  obtain ⟨held, m, url, -, -, looked, left, leave⟩ := h.looks c rest ahead
  rw [ahead] at closes
  obtain rfl := Option.some.inj closes
  rw [stepQuoted_address url] at looked
  exact ⟨held, left, looked.trans leave⟩

end Machine

namespace Document

open Machine

/-- The characters from `start` up to `stop` are a string or an address, whose characters from
`body` on are read up to the closing mark. Those of escape sequences are styled as such, and all
others as the string or address. Behind it the scan looks for a token. -/
structure ScannedQuoted (o : ScanOptions) (d : Document) (close : Char) (style : Style)
    (start body stop : Nat) : Prop where
  escapes : ∀ k, Escaped (readQuoted close (d.text.drop body)) (d.text.drop body) k →
    body + k < stop ∧ d.styleAt (body + k : Nat) = .ok .escapeChar
  styled : ∀ p : Nat, start ≤ p → p < stop →
    (∀ k, Escaped (readQuoted close (d.text.drop body)) (d.text.drop body) k → p ≠ body + k) →
    d.styleAt p = .ok style
  token : LooksForToken o d.text stop

variable {p : Place} {s : ScanSetup} {o : ScanOptions} {d : Document} {i : Nat} {c : Char}
  {rest : List Char} {style : Style}

theorem ScannedTo.styleAt_of_settledAs (full : d.ScannedTo o d.text.length) {p : Nat}
    (settled : SettledAs o d.text p style) : d.styleAt p = .ok style := by
  rw [styleAt, itemAt_eq_ok_iff, full.styles_eq]
  exact settled

/-- What is read up to the closing mark, and what stands around it. -/
theorem ScannedTo.quoted {close : Char} {start body stop : Nat}
    (full : d.ScannedTo o d.text.length) (plain : o.dialect.Plain) (closes : ClosedBy style close)
    (first : InQuoted o d.text body style)
    (le : body + (readQuoted close (d.text.drop body)).length ≤ stop)
    (around : ∀ p, start ≤ p → p < stop →
      p < body ∨ body + (readQuoted close (d.text.drop body)).length ≤ p →
      SettledAs o d.text p style)
    (token : LooksForToken o d.text stop) : d.ScannedQuoted o close style start body stop := by
  have reading := closes.reading (d.text.drop body)
  have read := (first.reads plain closes reading).2
  refine ⟨fun k escaped => ?_, fun p from_ upTo outside => ?_, token⟩
  · have lt := reading.escaped_lt escaped
    exact ⟨by omega, full.styleAt_of_settledAs ((read k lt).1 escaped)⟩
  · refine full.styleAt_of_settledAs ?_
    -- The marks around what is read have the style of the string too.
    by_cases inside : body ≤ p ∧ p < body + (readQuoted close (d.text.drop body)).length
    · obtain ⟨k, rfl⟩ := Nat.exists_eq_add_of_le inside.1
      exact (read k (by omega)).2 fun escaped => outside k escaped rfl
    · exact around p from_ upTo (by omega)

/-- A string of a scanned text. -/
theorem ScannedTo.string (full : d.ScannedTo o d.text.length) (plain : o.dialect.Plain)
    (h : OpensString o d.text i c rest style) :
    d.ScannedQuoted o c style i (i + 1)
      (min (i + 1 + (readQuoted c (d.text.drop (i + 1))).length + 1) d.text.length) := by
  have closes := closedBy_of_ofQuote h.quote
  have reading := closes.reading (d.text.drop (i + 1))
  obtain ⟨first, opening⟩ := h.first
  have last := (first.reads plain closes reading).1
  have stops := reading.stops
  rw [List.drop_drop] at stops
  generalize length : (readQuoted c (d.text.drop (i + 1))).length = n at last stops
  have le := last.le
  -- Either the text ends inside the string or a quote closes it.
  rcases stops with atEnd | closing
  · have whole : d.text.length ≤ i + 1 + n := List.drop_eq_nil_iff.mp atEnd
    rw [Nat.min_eq_right (by omega)]
    refine full.quoted plain closes first (by omega) (fun p from_ upTo around => ?_)
      (looksForToken_end List.drop_length)
    obtain rfl : p = i := by omega
    exact opening
  · obtain ⟨tail, ahead⟩ := List.head?_eq_some_iff.mp closing
    have inside := lt_of_drop ahead
    have string : style ≠ .url := by
      rintro rfl
      cases Style.isMeasured_of_ofQuote h.quote
    obtain ⟨token, quote⟩ := last.closed closes string ahead
    rw [Nat.min_eq_left (by omega)]
    refine full.quoted plain closes first (by omega) (fun p from_ upTo around => ?_) token
    rcases around with before | behind
    · obtain rfl : p = i := by omega
      exact opening
    · obtain rfl : p = i + 1 + n := by omega
      exact quote

/-- An address of a scanned text. -/
theorem ScannedTo.address (full : d.ScannedTo o d.text.length) (plain : o.dialect.Plain)
    (h : EntersUrl o d.text i) :
    d.ScannedQuoted o ')' .url i i (i + (readQuoted ')' (d.text.drop i)).length) := by
  have reading := ClosedBy.address.reading (d.text.drop i)
  have stops := reading.stops
  rw [List.drop_drop] at stops
  have token := ((h.first.reads plain .address reading).1).address stops
  exact full.quoted plain .address h.first (Nat.le_refl _) (by omega) token

/-- In a dialect without interpolations each string and each bare address goes as far as a reader
gets that takes the character behind a backslash with it, and the escape sequences in it are those
of the backslashes that the reader met. -/
theorem scanAll_quoted (options : s.options p = .ok o) (plain : o.dialect.Plain)
    (text : List Char) :
    ∃ d r, (ofChars text).scanAll p s = .ok (d, r) ∧ d.text = text ∧
      (∀ i c rest style, OpensString o text i c rest style →
        d.ScannedQuoted o c style i (i + 1)
          (min (i + 1 + (readQuoted c (text.drop (i + 1))).length + 1) text.length)) ∧
      ∀ i, EntersUrl o text i →
        d.ScannedQuoted o ')' .url i i (i + (readQuoted ')' (text.drop i)).length) := by
  obtain ⟨d, r, scanned, rfl, full⟩ := scannedTo_scanAll options text
  exact ⟨d, r, scanned, rfl, fun i c rest style => full.string plain,
    fun i => full.address plain⟩

/-- An escaped parenthesis closes no address, and the quote behind an escape sequence closes its
string. -/
theorem scanAll_quoted_escaped :
    ∃ d r, (ofChars "url(\\))\"\\41\"".toList).scanAll default {} = .ok (d, r) ∧
      d.ScannedQuoted ⟨.standard, true, .builtin⟩ ')' .url 4 4 6 ∧
      d.ScannedQuoted ⟨.standard, true, .builtin⟩ '"' .doubleQuoted 7 8 12 := by
  have options : ScanSetup.options default {} = .ok ⟨.standard, true, .builtin⟩ := rfl
  obtain ⟨d, r, scanned, -, strings, addresses⟩ :=
    scanAll_quoted options (.inl rfl) "url(\\))\"\\41\"".toList
  have address := addresses 4 ⟨by decide, by decide +kernel, by decide +kernel⟩
  have string := strings 7 '"' "\\41\"".toList .doubleQuoted
    { ahead := rfl
      held := by decide +kernel
      style := by decide +kernel
      runLength := by decide +kernel
      quote := rfl
      outside := by decide +kernel }
  exact ⟨d, r, scanned, address, string⟩

end Document

end CssHighlight
