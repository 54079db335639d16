import CssHighlight.Proofs.Accounting
import CssHighlight.Proofs.Painting
import CssHighlight.Proofs.SharedPrefix

/-!
# Block comments

A scan shows by the styles where block comments stand: one opens where such a style begins, or
behind another comment, and ends with the first mark that closes it. Behind a comment the scan
looks for a token again, in the context in which the comment opened.
-/
namespace CssHighlight

/-- How far a comment goes on behind its opening mark, with the mark that closes it. -/
def commentLength : List Char → Option Nat
  | [] => none
  | c :: rest =>
    if c = '*' ∧ rest.head? = some '/' then some 2 else (commentLength rest).map (· + 1)

theorem commentLength_le {text : List Char} {n : Nat} (closes : commentLength text = some n) :
    n ≤ text.length := by
  induction text generalizing n with
  | nil => cases closes
  | cons c rest ih =>
    rw [commentLength] at closes
    split at closes
    next mark =>
      cases closes
      cases rest with
      | nil => cases mark.2
      | cons => simp
    next =>
      obtain ⟨k, inside, rfl⟩ := Option.map_eq_some_iff.mp closes
      exact Nat.succ_le_succ (ih inside)

theorem Style.isSpace_of_isBlockComment {style : Style} (block : style.isBlockComment = true) :
    style.isSpace = true := by
  revert block
  cases style <;> simp [isBlockComment, isSpace]

theorem Context.refold_unfold (x : Context) : x.unfold.refold = x := by
  simp [Context.refold, Context.unfold]

namespace Machine

variable {o : ScanOptions} {seen : List Char} {c : Char} {rest text : List Char}
  {m m' : Machine}

/-! ### Where a comment opens -/

/-- A block comment opens at the character in front of which the machine stands. -/
structure Opens (o : ScanOptions) (c : Char) (rest : List Char) (m : Machine) : Prop where
  held : m.held = 0
  outside : m.style.isBlockComment = false
  inside : (m.look o c rest).style.isBlockComment = true

/-- The machine `m'` has begun a comment behind the runs of `k`. -/
inductive Begun (c : Char) (rest : List Char) (m m' : Machine) : Prop
  | mk {k : Machine} {style : Style} (slash : c = '/') (star : rest.head? = some '*')
      (held : k.held = 0) (after : k.after = m.after) (block : style.isBlockComment = true)
      (begun : m' = ((k.update Context.unfold).start style (c :: rest)).hold 1)

theorem TokenRule.begun (rule : TokenRule o c rest m m') (held : m.held = 0)
    (outside : m.style.isBlockComment = false) (inside : m'.style.isBlockComment = true) :
    Begun c rest m m' := by
  have absurd {p : Prop} {style : Style} (inside : style.isBlockComment = true)
      (outside : style.isBlockComment = false) : p := by
    rw [outside] at inside
    cases inside
  cases rule with
  | blank => exact absurd inside outside
  | blockComment block slash star => exact ⟨slash, star, held, rfl, block, rfl⟩
  | token opens => exact absurd inside opens.quiet.2.1
  | punctuation =>
    exact absurd inside (@punctuate_levels o c (m.start .operator (c :: rest)) rfl).style

theorem RunRule.begun (rule : RunRule o c rest m m') (held : m.held = 0)
    (outside : m.style.isBlockComment = false) (inside : m'.style.isBlockComment = true) :
    Begun c rest m m' := by
  have absurd {p : Prop} (inside : m.style.isBlockComment = true) : p := by
    rw [outside] at inside
    cases inside
  cases rule with
  | stays => exact absurd inside
  | blank => exact (startToken_rule held).begun held outside inside
  | dimension => cases inside
  | percent => exact absurd inside
  | commentEnd block => exact absurd block
  | escape => cases inside
  | quoteEnd => exact absurd inside
  | interpolation => cases inside
  | address => cases inside
  | @token style context ends =>
    have rule := @startToken_rule o c rest (m.endAs style context (c :: rest)) held
    obtain ⟨slash, star, free, after, block, begun⟩ := rule.begun held rfl inside
    exact ⟨slash, star, free, after, block, begun⟩

/-- Only at a slash in front of a star a comment opens. -/
theorem Opens.begun (h : Opens o c rest m)
    (escape : m.style = .escapeChar → m.context.escape.outer.isQuoted = true) :
    Begun c rest m (m.look o c rest) := by
  have rule := @look_rule o c rest m
  have inside := h.inside
  generalize m.look o c rest = m' at rule inside ⊢
  cases rule with
  | digit => exact absurd inside (by simp [update, h.outside])
  | resumes left same rule =>
    have outer := Style.isBlockComment_of_isQuoted (escape same)
    obtain ⟨slash, star, free, after, block, begun⟩ := rule.begun h.held outer inside
    exact ⟨slash, star, free, after, block, begun⟩
  | runs _ rule => exact rule.begun h.held h.outside inside

/-! ### Over a comment and over blanks -/

theorem lastOfLine_eq (goesOn : isLineBreak c = false) (rest : List Char) :
    lastOfLine c rest = rest.isEmpty := by
  obtain ⟨feed, carriage⟩ : c ≠ '\n' ∧ c ≠ '\r' := by simpa [isLineBreak] using goesOn
  simp [lastOfLine, endsLine, feed, carriage]

/-- A character that is looked at without a trace is taken without one. -/
theorem step_blank (held : m.held = 0) (after : m.after = none) (space : m.style.isSpace = true)
    (quiet : m.look o c rest = m) : m.step o c rest = { m with
      runLength := m.runLength + 1
      previous := some c
      atLineStart := lastOfLine c rest
      context := if lastOfLine c rest then m.context.endLine o else m.context
      lines := if lastOfLine c rest then m.context.lineData o :: m.lines else m.lines } := by
  have same : m.context.remember m.style c = m.context := by rw [Context.remember, if_pos space]
  rw [step, if_pos held, quiet, take_eq held after, same]

/-- From `m` a text was passed in one style, up to where the machine looks for a token again.
Without a line break it leaves no trace, but that the end of the text ends the line. -/
structure Passed (o : ScanOptions) (paint : Style) (passed behind : List Char) (m m' : Machine) :
    Prop where
  style : m'.style = .default
  held : m'.held = 0
  after : m'.after = none
  latest : m'.latest = List.replicate passed.length paint ++ m.latest
  previous : m'.previous.any isDull = true
  atLineStart : (∀ c ∈ passed, isLineBreak c = false) → m'.atLineStart = behind.isEmpty
  context : (∀ c ∈ passed, isLineBreak c = false) →
    m'.context = if behind.isEmpty then m.context.endLine o else m.context
  lines : (∀ c ∈ passed, isLineBreak c = false) →
    m'.lines = if behind.isEmpty then m.context.lineData o :: m.lines else m.lines

/-- One character more in front, which is taken in the same style without a trace. -/
theorem Passed.cons {paint : Style} {passed behind : List Char} {m₁ : Machine}
    (h : Passed o paint passed behind m₁ m') (latest : m₁.latest = paint :: m.latest)
    (kept : isLineBreak c = false → m₁.context = m.context ∧ m₁.lines = m.lines) :
    Passed o paint (c :: passed) behind m m' := by
  have others (goesOn : ∀ x ∈ c :: passed, isLineBreak x = false) :
      ∀ x ∈ passed, isLineBreak x = false :=
    fun x member => goesOn x (List.mem_cons_of_mem c member)
  exact { h with
    latest := by
      rw [h.latest, latest, List.length_cons, List.replicate_succ', List.append_assoc]
      rfl
    atLineStart := fun goesOn => h.atLineStart (others goesOn)
    context := fun goesOn => by
      rw [h.context (others goesOn), (kept (goesOn c List.mem_cons_self)).1]
    lines := fun goesOn => by
      obtain ⟨context, lines⟩ := kept (goesOn c List.mem_cons_self)
      rw [h.lines (others goesOn), context, lines] }

/-- The characters before the last one of a passed text. -/
theorem step_inside (held : m.held = 0) (after : m.after = none) (space : m.style.isSpace = true)
    (quiet : m.look o c rest = m) (some : rest ≠ []) (goesOn : isLineBreak c = false) :
    (m.step o c rest).context = m.context ∧ (m.step o c rest).lines = m.lines := by
  have inside : lastOfLine c rest = false := by
    rw [lastOfLine_eq goesOn]
    simpa using some
  rw [step_blank held after space quiet, inside]
  exact ⟨rfl, rfl⟩

theorem passed_blanks (style : m.style = .default) (held : m.held = 0) (after : m.after = none)
    (n : Nat) (behind : List Char) :
    Passed o m.style (List.replicate (n + 1) ' ') behind m
      (m.run o (n + 1) (List.replicate (n + 1) ' ' ++ behind)) := by
  have look (m : Machine) (style : m.style = .default) (rest : List Char) :
      m.look o ' ' rest = m := by
    rw [Machine.look, if_neg (by simp [style]), stepRun, style]
    exact startToken_separator o rfl rest m
  have space : m.style.isSpace = true := by rw [style]; rfl
  induction n generalizing m with
  | zero =>
    have step := step_blank (c := ' ') held after space (look m style behind)
    show Passed o m.style [' '] behind m (m.step o ' ' behind)
    rw [step, lastOfLine_eq rfl]
    exact ⟨style, held, after, rfl, rfl, fun _ => rfl, fun _ => rfl, fun _ => rfl⟩
  | succ n ih =>
    have quiet := look m style (List.replicate (n + 1) ' ' ++ behind)
    have step := step_blank held after space quiet
    have further := @ih (m.step o ' ' (List.replicate (n + 1) ' ' ++ behind))
      (by rw [step]; exact style) (by rw [step]; exact held) (by rw [step]; exact after)
      (by rw [step]; exact space)
    rw [show (m.step o ' ' (List.replicate (n + 1) ' ' ++ behind)).style = m.style by rw [step]]
      at further
    exact further.cons (by rw [step]; rfl) (step_inside held after space quiet (by simp))

theorem look_block (block : m.style.isBlockComment = true) : m.look o c rest =
    if c = '*' ∧ rest.head? = some '/' then
      ((m.update Context.refold).hold 1).thenStart .default
    else m := by
  unfold look stepRun
  cases style : m.style <;> simp_all [Style.isBlockComment]

/-- The mark that closes a comment: the star is looked at, and the slash behind it is held. -/
theorem passed_closing {behind : List Char} (block : m.style.isBlockComment = true)
    (held : m.held = 0) : Passed o m.style ['*', '/'] behind (m.update Context.refold)
      (m.run o 2 ('*' :: '/' :: behind)) := by
  have space := Style.isSpace_of_isBlockComment block
  have same (x : Context) (c : Char) : x.remember m.style c = x := by
    rw [Context.remember, if_pos space]
  have star : m.step o '*' ('/' :: behind) = { m with
      runLength := m.runLength + 1
      held := 1
      after := some .default
      previous := some '*'
      atLineStart := false
      context := m.context.refold } := by
    rw [step, if_pos held, look_block block, if_pos ⟨rfl, rfl⟩, take, lastOfLine_eq rfl]
    simp [release, hold, thenStart, update, same]
  have slash : m.run o 2 ('*' :: '/' :: behind) = { m with
      painted := List.replicate (m.runLength + 2) m.style ++ m.painted
      style := .default
      runText := behind
      runLength := 0
      held := 0
      after := none
      previous := some '/'
      atLineStart := behind.isEmpty
      context := if behind.isEmpty then m.context.refold.endLine o else m.context.refold
      lines := if behind.isEmpty then m.context.refold.lineData o :: m.lines else m.lines } := by
    rw [run, run, run, star, step, if_neg (by simp), take, lastOfLine_eq rfl]
    simp [release, start, same]
  rw [slash]
  refine ⟨rfl, rfl, rfl, ?_, rfl, fun _ => rfl, fun _ => rfl, fun _ => rfl⟩
  show List.replicate (m.runLength + 2) m.style ++ m.painted = [m.style, m.style] ++ m.latest
  rfl

/-- From inside a comment to behind it. -/
theorem passed_inside {n : Nat} (block : m.style.isBlockComment = true) (held : m.held = 0)
    (after : m.after = none) (closes : commentLength rest = some n) :
    Passed o m.style (rest.take n) (rest.drop n) (m.update Context.refold) (m.run o n rest) := by
  have space := Style.isSpace_of_isBlockComment block
  induction rest generalizing m n with
  | nil => cases closes
  | cons c rest ih =>
    rw [commentLength] at closes
    have look := @look_block o c rest m block
    split at closes
    next mark =>
      -- The closing mark stands at `c`, and nothing else is inside.
      obtain ⟨rfl, slash⟩ := mark
      obtain ⟨behind, rfl⟩ : ∃ behind, rest = '/' :: behind := by
        cases rest with
        | nil => cases slash
        | cons x behind => exact ⟨behind, by rw [Option.some.inj slash]⟩
      cases closes
      exact passed_closing block held
    next other =>
      obtain ⟨k, inside, rfl⟩ := Option.map_eq_some_iff.mp closes
      rw [if_neg other] at look
      have some : rest ≠ [] := by
        rintro rfl
        cases inside
      have step := step_blank held after space look
      have further := @ih (m.step o c rest) k (by rw [step]; exact block) (by rw [step]; exact held)
        (by rw [step]; exact after) inside (by rw [step]; exact space)
      rw [show (m.step o c rest).style = m.style by rw [step]] at further
      refine further.cons (by rw [step]; rfl) fun goesOn => ?_
      obtain ⟨context, lines⟩ := step_inside held after space look some goesOn
      exact ⟨congrArg Context.refold context, lines⟩

/-- Over a whole comment, which begins behind the runs of `k`. -/
theorem passed_comment {k : Machine} {paint : Style} {n : Nat} (after : k.after = none)
    (block : paint.isBlockComment = true)
    (closes : commentLength rest = some n) (free : m.held = 0)
    (begun : m.look o '/' ('*' :: rest) =
      ((k.update Context.unfold).start paint ('/' :: '*' :: rest)).hold 1) :
    Passed o paint ('/' :: '*' :: rest.take n) (rest.drop n) k
      (m.run o (n + 2) ('/' :: '*' :: rest)) := by
  have space : paint.isSpace = true := Style.isSpace_of_isBlockComment block
  have same (x : Context) (c : Char) : x.remember paint c = x := by
    rw [Context.remember, if_pos space]
  have some : rest ≠ [] := by
    rintro rfl
    cases closes
  have slash : m.step o '/' ('*' :: rest) = { (k.update Context.unfold).start paint
        ('/' :: '*' :: rest) with
      runLength := 1
      held := 1
      previous := '/'
      atLineStart := false } := by
    rw [step, if_pos free, begun, take, lastOfLine_eq rfl]
    simp [release, hold, start, update, same]
  have star : (m.step o '/' ('*' :: rest)).step o '*' rest = { (k.update Context.unfold).start paint
        ('/' :: '*' :: rest) with
      runLength := 2
      held := 0
      previous := '*'
      atLineStart := false } := by
    rw [slash, step, if_neg (by simp), take, lastOfLine_eq rfl]
    simp [release, start, update, same, some, after]
  have inside := @passed_inside o rest ((m.step o '/' ('*' :: rest)).step o '*' rest) n
    (by rw [star]; exact block) (by rw [star]) (by rw [star]; exact after) closes
  rw [show ((m.step o '/' ('*' :: rest)).step o '*' rest).style = paint by rw [star]; rfl] at inside
  have context : (((m.step o '/' ('*' :: rest)).step o '*' rest).update Context.refold).context =
      k.context := by
    rw [star]
    exact k.context.refold_unfold
  -- The two characters of the mark stand in front of what is inside.
  have second : Passed o paint ('*' :: rest.take n) (rest.drop n)
      { k with painted := paint :: k.latest, runLength := 0 } _ :=
    inside.cons (by rw [star]; rfl) fun _ => ⟨context, by rw [star]; rfl⟩
  exact second.cons rfl fun _ => ⟨rfl, rfl⟩

theorem lt_of_block {start : Nat}
    (block : ((scanned o text.length text).styles[start]?).any Style.isBlockComment = true) :
    start < text.length := by
  refine Decidable.byContradiction fun beyond => ?_
  have size := @length_latest_scanned o _ text (Nat.le_refl _)
  rw [styles_eq, List.getElem?_eq_none (by rw [List.length_reverse]; omega)] at block
  cases block

/-- A comment that goes on behind a character would have given it its style. -/
theorem outside_of_style {before : Nat} (inside : before < text.length)
    (other : ((scanned o text.length text).styles[before]?).any Style.isBlockComment = false) :
    (scanned o (before + 1) text).style.isBlockComment = false := by
  have steady := steady_scanned o (before + 1) text
  have settled := @lasting_style o _ lasting_isBlockComment before text inside
  cases length : (scanned o (before + 1) text).runLength with
  | zero => exact Style.isBlockComment_of_isBase (steady.short length)
  | succ k =>
    rw [latest, length, List.replicate_succ, List.cons_append, List.head?_cons, Option.map_some]
      at settled
    obtain ⟨style, found, same⟩ := Option.map_eq_some_iff.mp settled
    rw [found] at other
    rw [← same]
    exact other

/-- A character of a comment that is the first one opens the comment. -/
theorem opens_of_block {start : Nat}
    (block : ((scanned o text.length text).styles[start]?).any Style.isBlockComment = true)
    (outside : (scanned o start text).style.isBlockComment = false) :
    ∃ rest, text.drop start = '/' :: '*' :: rest ∧
      Opens o '/' ('*' :: rest) (scanned o start text) := by
  have steady := steady_scanned o start text
  have inside := lt_of_block block
  obtain ⟨c, rest, ahead⟩ : ∃ c rest, text.drop start = c :: rest :=
    ⟨_, _, List.drop_eq_getElem_cons inside⟩
  have settled := @lasting_style o _ lasting_isBlockComment start text inside
  rw [scanned_succ ahead, ← List.head?_map, lasting_step lasting_isBlockComment] at settled
  have taken : (if (scanned o start text).held = 0 then
      ((scanned o start text).look o c rest).style else
      (scanned o start text).style).isBlockComment = true := by
    cases found : (scanned o text.length text).styles[start]? with
    | none => simp [found] at block
    | some style =>
      simp only [found, Option.any_some, Option.map_some, List.head?_cons, Option.some.injEq]
        at block settled
      rw [← settled, block]
  -- A character that is held gets the style in front of it, which is no comment's.
  have held : (scanned o start text).held = 0 := Decidable.byContradiction fun busy => by
    rw [if_neg busy, outside] at taken
    cases taken
  rw [if_pos held] at taken
  have opens : Opens o c rest (scanned o start text) := ⟨held, outside, taken⟩
  obtain ⟨rfl, star, -, -, -, -⟩ := opens.begun steady.escape
  cases rest with
  | nil => cases star
  | cons x rest =>
    obtain rfl := Option.some.inj star
    exact ⟨rest, ahead, opens⟩

/-- Behind the comment the scan from the front looks for a token again. -/
theorem passed_scanned {start n : Nat} (ahead : text.drop start = '/' :: '*' :: rest)
    (closes : commentLength rest = some n)
    (opens : Opens o '/' ('*' :: rest) (scanned o start text)) :
    ∃ k paint, Passed o paint ('/' :: '*' :: rest.take n) (rest.drop n) k
      (scanned o (start + 2 + n) text) := by
  have steady := steady_scanned o start text
  obtain ⟨-, -, -, after, block, begun⟩ := opens.begun steady.escape
  have passed := passed_comment (after.trans (steady.idle opens.held)) block closes opens.held begun
  rw [← ahead, ← scanned_add, Nat.add_comm n 2, ← Nat.add_assoc] at passed
  exact ⟨_, _, passed⟩

end Machine

namespace Document

/-- Whether a character stands in a block comment. -/
def blockAt (d : Document) (position : Nat) : Bool :=
  d.styles[position]?.any Style.isBlockComment

/-- The block comments of a scanned text, from the opening mark to behind the closing one. -/
inductive Comment (d : Document) : Nat → Nat → Prop
  | first {start n : Nat} (opens : d.blockAt start = true)
      (alone : ∀ before, start = before + 1 → d.blockAt before = false)
      (closes : commentLength (d.text.drop (start + 2)) = some n) :
      Comment d start (start + 2 + n)
  | next {earlier start n : Nat} (behind : Comment d earlier start)
      (opens : d.blockAt start = true)
      (closes : commentLength (d.text.drop (start + 2)) = some n) :
      Comment d start (start + 2 + n)

/-- Where the styles show a comment the scan from the front has opened one. -/
theorem Comment.opened {o : ScanOptions} {d : Document} {start stop : Nat}
    (styles : d.styles = (Machine.scanned o d.text.length d.text).styles)
    (h : d.Comment start stop) :
    ∃ rest n, d.text.drop start = '/' :: '*' :: rest ∧ commentLength rest = some n ∧
      stop = start + 2 + n ∧
        Machine.Opens o '/' ('*' :: rest) (Machine.scanned o start d.text) := by
  have opened {start n : Nat} (opens : d.blockAt start = true)
      (closes : commentLength (d.text.drop (start + 2)) = some n)
      (outside : (Machine.scanned o start d.text).style.isBlockComment = false) :
      ∃ rest k, d.text.drop start = '/' :: '*' :: rest ∧ commentLength rest = some k ∧
        start + 2 + n = start + 2 + k ∧
        Machine.Opens o '/' ('*' :: rest) (Machine.scanned o start d.text) := by
    rw [blockAt, styles] at opens
    obtain ⟨rest, ahead, opens⟩ := Machine.opens_of_block opens outside
    rw [← List.drop_drop, ahead] at closes
    exact ⟨rest, n, ahead, closes, rfl, opens⟩
  induction h with
  | @first start n opens alone closes =>
    -- The character in front of it is in no comment, or there is none.
    refine opened opens closes ?_
    cases start with
    | zero => rfl
    | succ before =>
      have other := alone before rfl
      rw [blockAt, styles] at opens other
      exact Machine.outside_of_style (Nat.lt_of_succ_lt (Machine.lt_of_block opens)) other
  | @next earlier start n behind opens closes ih =>
    obtain ⟨rest, k, ahead, inside, rfl, before⟩ := ih
    obtain ⟨_, _, passed⟩ := Machine.passed_scanned ahead inside before
    exact opened opens closes (by rw [passed.style]; rfl)

end Document

end CssHighlight
