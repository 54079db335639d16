import CssHighlight.Proofs.Fitting
import CssHighlight.Proofs.Nesting

/-!
# What the rules do to the level

A bracket that is punctuation opens or closes a level. While a text is scanned the level runs
ahead of the styles: a comment raises it when it opens, and the brace of an interpolation raises
it together with the sign in front of it. What is open and what is held are counted beside the
characters that were taken, and then every rule accounts for its change of the level.
-/
namespace CssHighlight

/-- A bracket that opens a level. -/
def opensLevel (entry : Char × Style) : Bool :=
  entry.2 == .operator && (entry.1 == '{' || entry.1 == '(' || entry.1 == '[')

def closesLevel (entry : Char × Style) : Bool :=
  entry.2 == .operator && (entry.1 == '}' || entry.1 == ')' || entry.1 == ']')

/-- How many more levels are opened than closed among styled characters. -/
def balance (entries : List (Char × Style)) : Int :=
  (entries.countP opensLevel : Int) - entries.countP closesLevel

section Balance

variable {entries others : List (Char × Style)} {c : Char} {style : Style}

theorem balance_append : balance (entries ++ others) = balance entries + balance others := by
  simp only [balance, List.countP_append]
  omega

theorem balance_cons (entry : Char × Style) :
    balance (entry :: entries) = balance [entry] + balance entries :=
  @balance_append [entry] entries

theorem balance_reverse : balance entries.reverse = balance entries := by
  simp only [balance, List.countP_reverse]

/-- Only punctuation counts. -/
theorem balance_other (other : style ≠ .operator) (c : Char) : balance [(c, style)] = 0 := by
  simp [balance, opensLevel, closesLevel, other]

/-- A run that is no punctuation counts for nothing. -/
theorem balance_zip_replicate (other : style ≠ .operator) (count : Nat) (seen : List Char)
    (painted : List Style) : balance (seen.zip (List.replicate count style ++ painted)) =
      balance ((seen.drop count).zip painted) := by
  induction count generalizing seen with
  | zero => rfl
  | succ count ih =>
    cases seen with
    | nil => rfl
    | cons c seen =>
      rw [List.replicate_succ, List.cons_append, List.zip_cons_cons, balance_cons,
        balance_other other, List.drop_succ_cons, ih, Int.zero_add]

end Balance

namespace Machine

/-- Whether the run in progress is a comment that goes on. -/
def openComment (m : Machine) : Int :=
  if m.style.isBlockComment = true ∧ m.after = none then 1 else 0

/-- Whether a brace is held. -/
def heldBrace (m : Machine) : Int :=
  if m.style = .operator ∧ m.held ≠ 0 then 1 else 0

/-- By how much the level is raised by the characters that were taken and by what is open. -/
def raised (seen : List Char) (m : Machine) : Int :=
  balance (seen.zip m.latest) + m.openComment + m.heldBrace

/-- Punctuation that is held is the brace of an interpolation. -/
def Braced (text : List Char) (m : Machine) : Prop :=
  m.style = .operator → m.held ≠ 0 → m.held = 1 ∧ text.head? = some '{'

/-- What a character that was looked at accounts for, in the style that it is about to be taken
in. -/
structure Accounted (seen : List Char) (c : Char) (rest : List Char) (m m' : Machine) : Prop where
  level : m'.context.foldNext + m.raised seen =
    m.context.foldNext + (m'.raised seen + balance [(c, m'.style)])
  braced : Braced rest m'

section Accounted

variable {o : ScanOptions} {seen : List Char} {c : Char} {rest text : List Char} {m m' : Machine}

/-- A run that is no punctuation may get another style that is none. -/
theorem balance_restyle (wide : m.style ≠ .operator) {style : Style} (wide' : style ≠ .operator)
    (seen : List Char) :
    balance (seen.zip (m.restyle style).latest) = balance (seen.zip m.latest) :=
  (balance_zip_replicate wide' m.runLength seen m.painted).trans
    (balance_zip_replicate wide m.runLength seen m.painted).symm

theorem openComment_other (other : m.style.isBlockComment = false) : m.openComment = 0 := by
  simp [openComment, other]

theorem heldBrace_free (held : m.held = 0) : m.heldBrace = 0 := by
  simp [heldBrace, held]

/-- Outside comments and with nothing held, only what was taken counts. -/
theorem raised_plain (other : m.style.isBlockComment = false) (held : m.held = 0) :
    m.raised seen = balance (seen.zip m.latest) := by
  rw [raised, openComment_other other, heldBrace_free held]
  omega

/-- Outside comments, what is opened and held and what the character counts for has to raise the
level. -/
theorem Accounted.raises (other : m.style.isBlockComment = false) (held : m.held = 0)
    (latest : balance (seen.zip m'.latest) = balance (seen.zip m.latest))
    (foldNext : m'.context.foldNext =
      m.context.foldNext + (m'.openComment + m'.heldBrace + balance [(c, m'.style)]))
    (braced : Braced rest m') : Accounted seen c rest m m' where
  level := by
    rw [raised_plain other held, raised, latest, foldNext]
    omega
  braced := braced

/-- A style other than punctuation and comments accounts for nothing by itself. -/
theorem Accounted.plain (other : m.style.isBlockComment = false) (held : m.held = 0)
    (latest : balance (seen.zip m'.latest) = balance (seen.zip m.latest))
    (foldNext : m'.context.foldNext = m.context.foldNext)
    (other' : m'.style.isBlockComment = false) (wide : m'.style ≠ .operator) :
    Accounted seen c rest m m' := by
  refine .raises other held latest ?_ fun operator => absurd operator wide
  have free : m'.heldBrace = 0 := by simp [heldBrace, wide]
  rw [openComment_other other', free, balance_other wide, foldNext]
  omega

theorem Opening.quiet {x context : Context} {style : Style} {count : Nat}
    (opens : Opening c rest x style count context) :
    context.foldNext = x.foldNext ∧ style.isBlockComment = false ∧ style ≠ .operator := by
  cases opens with
  | lineComment kind =>
    rcases kind with rfl | rfl
    · exact ⟨rfl, rfl, nofun⟩
    · exact ⟨rfl, rfl, nofun⟩
  | _ => exact ⟨rfl, rfl, nofun⟩

/-- Punctuation changes the level by what it counts for. -/
structure Levels (c : Char) (m m' : Machine) : Prop where
  foldNext : m'.context.foldNext = m.context.foldNext + balance [(c, m'.style)]
  style : m'.style.isBlockComment = false

theorem punctuate_levels (operator : m.style = .operator) : Levels c m (m.punctuate o c) := by
  have bracket {m' : Machine} (style : m'.style = m.style)
      (foldNext : m'.context.foldNext = m.context.foldNext + balance [(c, .operator)]) :
      Levels c m m' := by
    rw [operator] at style
    exact ⟨by rw [style, foldNext], by rw [style]; rfl⟩
  have same {m' : Machine} (style : m'.style = m.style)
      (foldNext : m'.context.foldNext = m.context.foldNext)
      (quiet : balance [(c, .operator)] = 0) : Levels c m m' :=
    bracket style (by rw [foldNext, quiet, Int.add_zero])
  have sign (quiet : balance [(c, .operator)] = 0) :
      Levels c m (if m.context.joinsOperands then m.restyle .operatorInCalc else m) := by
    split
    · refine ⟨?_, rfl⟩
      rw [balance_other (by rintro ⟨⟩), Int.add_zero]
      rfl
    · exact same rfl rfl quiet
  unfold punctuate
  split
  -- Braces, brackets and parentheses.
  case h_1 | h_2 => split <;> exact bracket rfl rfl
  case h_3 | h_4 | h_6 => exact bracket rfl rfl
  case h_5 => exact bracket rfl (Context.enterMath_foldNext _)
  -- Everything else.
  case h_7 | h_8 => split <;> exact same rfl rfl rfl
  case h_9 | h_10 | h_11 | h_12 => exact sign rfl
  case h_13 =>
    refine same rfl rfl ?_
    simp_all [balance, opensLevel, closesLevel]

/-- What stands behind a run that ended accounts for what the run does. -/
theorem Accounted.of_same {m₂ : Machine} (h : Accounted seen c rest m₂ m')
    (foldNext : m₂.context.foldNext = m.context.foldNext)
    (raised : m₂.raised seen = m.raised seen) : Accounted seen c rest m m' :=
  ⟨by rw [← foldNext, ← raised, h.level], h.braced⟩

theorem TokenRule.accounts (rule : TokenRule o c rest m m') (held : m.held = 0)
    (after : m.after = none) (blank : m.style = .default) : Accounted seen c rest m m' := by
  have other : m.style.isBlockComment = false := by rw [blank]; rfl
  cases rule with
  | blank => exact .plain other held rfl rfl other (by simp [blank])
  | @blockComment style block =>
    have wide : style ≠ .operator := by
      rintro rfl
      cases block
    refine .raises other held rfl ?_ fun operator => absurd operator wide
    simp [openComment, heldBrace, start, hold, update, Context.unfold, block, wide, after,
      balance_other wide]
  | token opens =>
    obtain ⟨foldNext, other', wide⟩ := opens.quiet
    exact .plain other held rfl foldNext other' wide
  | punctuation =>
    have levels := @punctuate_levels o c (m.start .operator (c :: rest)) rfl
    have taken := @punctuate_punctuated o c (m.start .operator (c :: rest))
    generalize (m.start .operator (c :: rest)).punctuate o c = m' at levels taken ⊢
    have idle : m'.held = 0 := taken.held.trans held
    have latest : m'.latest = m.latest := by
      rw [Machine.latest, taken.runLength, taken.painted]
      rfl
    refine .raises other held (by rw [latest]) ?_ fun _ busy => absurd idle busy
    rw [openComment_other levels.style, heldBrace_free idle, levels.foldNext, Int.add_zero,
      Int.zero_add]
    rfl

/-- The characters of a run that is classified are those of a name, and so is the run in the
end. -/
theorem classified_ne_operator {name : Option String} {e : RunEnd} {x : Context} {style : Style}
    (kind : isClassified o.dialect style = true) :
    style ≠ .operator ∧ (classifyRun style name e x).1 ≠ .operator := by
  have admits : style.admits 'a' = true := by
    revert kind
    cases style <;> simp [isClassified, Style.admits, isRunChar, isNameChar, isNameStart]
  have wide {other : Style} (admits : other.admits 'a' = true) : other ≠ .operator := by
    rintro rfl
    cases admits
  exact ⟨wide admits, wide (Context.admits_classifyRun name e x kind admits)⟩

/-- A run ends without a change of the level. -/
theorem Ending.same {style : Style} {context : Context} (ends : Ending o c m style context)
    (seen rest : List Char) (held : m.held = 0) :
    (m.endAs style context (c :: rest)).context.foldNext = m.context.foldNext ∧
      (m.endAs style context (c :: rest)).raised seen = m.raised seen := by
  have kept {style : Style} {context : Context} (other : m.style.isBlockComment = false)
      (same : balance (seen.zip (m.endAs style context (c :: rest)).latest) =
        balance (seen.zip m.latest)) :
      (m.endAs style context (c :: rest)).raised seen = m.raised seen := by
    have plain : (m.endAs style context (c :: rest)).style.isBlockComment = false := rfl
    rw [raised_plain other held, raised_plain plain held, same]
  cases ends with
  | plain left other => exact ⟨rfl, kept other rfl⟩
  | run other => exact ⟨rfl, kept other rfl⟩
  | @classified name e stop kind =>
    have level := (Context.classifyRun_classifies m.style name e m.context).foldNext
    obtain ⟨wide, wide'⟩ := @classified_ne_operator o name e m.context m.style kind
    exact ⟨level, kept (isBlockComment_of_isClassified kind) (balance_restyle wide wide' seen)⟩

theorem RunRule.accounts (rule : RunRule o c rest m m') (held : m.held = 0)
    (after : m.after = none) : Accounted seen c rest m m' := by
  cases rule with
  | stays left wide =>
    refine ⟨?_, fun operator => absurd operator wide⟩
    show _ = m.context.foldNext + (m.raised seen + balance [(c, m.style)])
    rw [balance_other wide, Int.add_zero]
    rfl
  | blank blank => exact (startToken_rule held).accounts held after blank
  | dimension number =>
    refine .plain (by rw [number]; rfl) held ?_ rfl rfl (by rintro ⟨⟩)
    exact balance_restyle (by simp [number]) (by rintro ⟨⟩) seen
  | percent number =>
    have other : m.style.isBlockComment = false := by rw [number]; rfl
    exact .plain other held rfl rfl other (by simp [thenStart, number])
  | commentEnd block =>
    have wide : m.style ≠ .operator := by
      intro operator
      rw [operator] at block
      cases block
    refine ⟨?_, fun operator => absurd operator wide⟩
    -- The comment was open, and what waits behind it closes it.
    have before : m.raised seen = balance (seen.zip m.latest) + 1 := by
      rw [raised, openComment, if_pos ⟨block, after⟩, heldBrace_free held, Int.add_zero]
    have behind : (((m.update Context.refold).hold 1).thenStart .default).raised seen =
        balance (seen.zip m.latest) := by
      simp [raised, openComment, heldBrace, update, hold, thenStart, latest, wide]
    rw [before, behind]
    show m.context.foldNext - 1 + _ = m.context.foldNext + (_ + balance [(c, m.style)])
    rw [balance_other wide]
    omega
  | escape quoted =>
    have other := Style.isBlockComment_of_isQuoted quoted
    exact .plain other held rfl rfl rfl (by rintro ⟨⟩)
  | quoteEnd quote =>
    have quoted := isQuoted_of_closingQuote quote
    have other := Style.isBlockComment_of_isQuoted quoted
    refine .plain other held rfl rfl other ?_
    intro operator
    rw [show m.style = .operator from operator] at quoted
    cases quoted
  | interpolation quoted brace leads =>
    refine .raises (Style.isBlockComment_of_isQuoted quoted) held rfl ?_ fun _ _ => ⟨rfl, brace⟩
    -- The sign itself counts for nothing; the brace behind it is held.
    have sign : balance [(c, .operator)] = 0 := by
      simp only [leadsInterpolation, Bool.or_eq_true, Bool.and_eq_true, beq_iff_eq] at leads
      rcases leads with ⟨rfl, -⟩ | ⟨rfl, -⟩ <;> rfl
    show _ = _ + (0 + 1 + balance [(c, .operator)])
    rw [sign]
    rfl
  | address name paren =>
    subst paren
    have other : m.style.isBlockComment = false := by rw [name]; rfl
    refine .raises other held rfl ?_ fun _ busy => absurd held busy
    have style : (((m.update fun x => x.unfold.enterParen).start .operator
        ('(' :: rest)).thenStart .url).style.isBlockComment = false := rfl
    rw [openComment_other style, heldBrace_free (by exact held)]
    rfl
  | @token style context ends =>
    obtain ⟨foldNext, raised⟩ := ends.same seen rest held
    have rule := @startToken_rule o c rest (m.endAs style context (c :: rest)) held
    exact (rule.accounts held after rfl).of_same foldNext raised

/-- Looking at a character changes the level by what the character then accounts for. -/
theorem Ready.accounts (ready : Ready seen m) : Accounted seen c rest m (m.look o c rest) := by
  have rule := @look_rule o c rest m
  generalize m.look o c rest = m' at rule ⊢
  cases rule with
  | digit left escape =>
    have other : m.style.isBlockComment = false := by rw [escape]; rfl
    exact .plain other ready.held rfl rfl other (by simp [update, escape])
  | resumes left escape rule =>
    -- Neither the escape sequence nor what goes on behind it is a comment.
    have other : m.style.isBlockComment = false := by rw [escape]; rfl
    have other' := Style.isBlockComment_of_isQuoted (ready.escape escape)
    refine (rule.accounts ready.held ready.after).of_same rfl ?_
    rw [raised_plain other ready.held]
    exact raised_plain other' ready.held
  | runs plain rule => exact rule.accounts ready.held ready.after

/-- Taking a character counts it. -/
theorem raised_take (o : ScanOptions) (seen : List Char) (c : Char) (rest : List Char)
    (waits : ∀ style, m.after = some style → style.isBlockComment = false) :
    (m.take o c rest).raised (c :: seen) = m.raised seen + balance [(c, m.style)] := by
  have open_ : (m.take o c rest).openComment = m.openComment ∧
      (m.take o c rest).heldBrace = m.heldBrace := by
    cases take_taken o c rest m with
    | @released style free after style' _ held =>
      have other : (m.take o c rest).style.isBlockComment = false := by
        rw [style']
        exact waits style after
      have closed : m.openComment = 0 := if_neg fun opened => by
        rw [after] at opened
        cases opened.2
      exact ⟨by rw [openComment_other other, closed],
        by rw [heldBrace_free held, heldBrace_free free]⟩
    | goesOn _ style _ held after =>
      exact ⟨by rw [openComment, openComment, style, after],
        by rw [heldBrace, heldBrace, style, held]⟩
  rw [raised, raised, latest_take, List.zip_cons_cons, balance_cons, open_.1, open_.2]
  omega

end Accounted

end Machine

end CssHighlight
