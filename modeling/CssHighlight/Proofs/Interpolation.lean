import CssHighlight.Proofs.Between
import CssHighlight.Proofs.Restart
import CssHighlight.Proofs.Runs

/-!
# Interpolations

An interpolation opens in a string, in a bare address or outside all runs, and the scan goes on
behind it as if it were not there: in the style that it had in front, with the same nesting. What
stands inside, if it is plain, is scanned as tokens that leave the nesting alone.
-/
namespace CssHighlight

/-- Characters of a plain interpolation: those of names, numbers and variables, and what separates
them. -/
def isPlainInside (c : Char) : Bool :=
  isRunChar c || c == '.' || c == ',' || c == ' ' || c == '\t' || c == '$'

namespace Style

/-- Styles of the runs in a plain interpolation while they are in progress. -/
def isPlainInside : Style → Bool
  | .default | .operator | .operatorInCalc | .number | .dimension | .variableName
  | .identifier => true
  | _ => false

/-- Styles in which nothing opens an interpolation: those of comments, and those that no run in
progress has. Behind an escape sequence the scan is in the style around it. -/
def isDeaf : Style → Bool
  | .blockComment | .blockCommentDoc | .lineComment | .lineCommentDoc | .escapeChar => true
  | style => !style.isLive

theorem of_isPlainInside {style : Style} (plain : style.isPlainInside = true) :
    style.isLive = true ∧ style.isBlockComment = false ∧ style.isQuoted = false ∧
      style ≠ .escapeChar := by
  revert plain
  cases style <;> simp [isPlainInside, isLive, isBlockComment, isQuoted]

/-- The style in which the scan goes on where a run of a style ends. -/
def around (style : Style) : Style :=
  if style.isQuoted then style else .default

end Style

namespace Context

/-- Contexts with the same nesting and the same place in a declaration. -/
structure SameNesting (x y : Context) : Prop where
  inValue : y.inValue = x.inValue
  inBrackets : y.inBrackets = x.inBrackets
  mathDepth : y.mathDepth = x.mathDepth
  parenDepth : y.parenDepth = x.parenDepth
  selectorDepth : y.selectorDepth = x.selectorDepth

/-- Contexts that differ at most in what is remembered of single characters and runs. -/
structure Untouched (x y : Context) : Prop extends SameNesting x y where
  foldNext : y.foldNext = x.foldNext
  interpolation : y.interpolation = x.interpolation

theorem SameNesting.trans {x y z : Context} (h : SameNesting x y) (h' : SameNesting y z) :
    SameNesting x z where
  inValue := h'.inValue.trans h.inValue
  inBrackets := h'.inBrackets.trans h.inBrackets
  mathDepth := h'.mathDepth.trans h.mathDepth
  parenDepth := h'.parenDepth.trans h.parenDepth
  selectorDepth := h'.selectorDepth.trans h.selectorDepth

theorem Untouched.refl (x : Context) : Untouched x x := ⟨⟨rfl, rfl, rfl, rfl, rfl⟩, rfl, rfl⟩

theorem Untouched.trans {x y z : Context} (h : Untouched x y) (h' : Untouched y z) :
    Untouched x z :=
  ⟨h.toSameNesting.trans h'.toSameNesting, h'.foldNext.trans h.foldNext,
    h'.interpolation.trans h.interpolation⟩

theorem untouched_remember (style : Style) (c : Char) (x : Context) :
    Untouched x (x.remember style c) := by
  unfold remember
  split <;> exact ⟨⟨rfl, rfl, rfl, rfl, rfl⟩, rfl, rfl⟩

theorem sameNesting_open (style : Option Style) (x : Context) :
    SameNesting x { x.unfold with interpolation := style } := ⟨rfl, rfl, rfl, rfl, rfl⟩

/-- A run that no parenthesis follows leaves the context alone, if it stands in an interpolation or
no colon follows either. -/
theorem classifyRun_context {style : Style} {name : Option String} {e : RunEnd} {x : Context}
    (paren : e.stop ≠ some '(') (calm : x.interpolation.isSome = true ∨ e.next ≠ some ':') :
    (classifyRun style name e x).2 = x := by
  have same {p : Prop} [Decidable p] {a b : Style × Context} (left : a.2 = x)
      (right : ¬p → b.2 = x) : (if p then a else b).2 = x := by
    split
    · exact left
    · exact right ‹_›
  unfold classifyRun
  split
  · unfold classifyName
    rw [if_neg paren]
    refine same rfl fun _ => same rfl fun inside => ?_
    have colon := calm.resolve_left inside
    iterate 7 refine same rfl fun _ => ?_
    rw [if_neg fun declares => colon declares.1]
    exact same rfl fun _ => rfl
  · rfl
  · exact same (if_neg fun opens => paren opens.1) fun _ => rfl
  · rfl
  · rfl

end Context

namespace Machine

open Context (SameNesting Untouched)

variable {o : ScanOptions} {c : Char} {rest behind body : List Char} {x : Context}
  {m m' k : Machine}

/-- The style that the scan has at a character with which the run in progress ends: within a string
or a bare address its style, also behind an escape sequence, and else that outside all runs. -/
def surrounding (m : Machine) : Style :=
  (if m.style = .escapeChar then m.context.escape.outer else m.style).around

theorem surrounding_of_isQuoted (quoted : m.style.isQuoted = true) : m.surrounding = m.style := by
  unfold surrounding
  rw [if_neg, Style.around, if_pos quoted]
  rintro escape
  rw [escape] at quoted
  cases quoted

theorem surrounding_eq_default (outside : m.style.isQuoted = false)
    (outer : m.style = .escapeChar → m.context.escape.outer = .escapeChar) :
    m.surrounding = .default := by
  unfold surrounding
  split
  next escape => rw [outer escape]; rfl
  next => simp [Style.around, outside]

/-! ### Taking a character that ends no line -/

theorem take_kept (idle : m.held = 0 → m.after = none) :
    (m.take o c rest).style = m.style ∧ (m.take o c rest).held = m.held ∧
      (m.take o c rest).after = m.after := by
  cases take_taken o c rest m with
  | released free waits =>
    rw [idle free] at waits
    cases waits
  | goesOn _ style _ held after => exact ⟨style, held, after⟩

theorem untouched_take (goesOn : lastOfLine c rest = false) (m : Machine) :
    Untouched m.context (m.take o c rest).context := by
  rw [context_take, if_neg (by simp [goesOn])]
  exact Context.untouched_remember m.style c m.context

/-- The nesting also outlives the end of a line. -/
theorem sameNesting_take (m : Machine) : SameNesting m.context (m.take o c rest).context := by
  have remembered := Context.untouched_remember m.style c m.context
  rw [context_take]
  split
  · exact { remembered.toSameNesting with }
  · exact remembered.toSameNesting

theorem interpolation_take (shut : m.context.interpolation = none) :
    (m.take o c rest).context.interpolation = none := by
  rw [context_take]
  split
  · rfl
  · exact (Context.untouched_remember m.style c m.context).interpolation.trans shut

theorem lastOfLine_eq_false (plain : isLineBreak c = false) (more : rest ≠ []) :
    lastOfLine c rest = false := by
  simp only [isLineBreak, Bool.or_eq_false_iff, beq_eq_false_iff_ne] at plain
  simp [lastOfLine, endsLine, plain, more]

/-! ### The mark that opens -/

theorem leadsInterpolation_cases {dialect : Dialect}
    (leads : leadsInterpolation dialect c = true) : c = '#' ∨ c = '@' := by
  simp only [leadsInterpolation, Bool.or_eq_true, Bool.and_eq_true, beq_iff_eq] at leads
  exact leads.imp And.left And.left

/-- What looking at the first character of the mark leads to, in the style that the scan has
there. -/
inductive AtLeader (c : Char) (rest : List Char) (m : Machine) : Machine → Prop
  | quoted (quoted : m.style.isQuoted = true) :
      AtLeader c rest m
        (((m.update fun x => { x.unfold with interpolation := some m.style }).start .operator
          (c :: rest)).hold 1)
  | token {k : Machine} (outside : m.style.isQuoted = false)
      (untouched : Untouched m.context k.context) (held : k.held = m.held)
      (after : k.after = m.after) : AtLeader c rest m (k.start .operator (c :: rest))
  | deaf (deaf : m.style.isDeaf = true) : AtLeader c rest m m

theorem startToken_leader (leads : leadsInterpolation o.dialect c = true) (m : Machine) :
    m.startToken o c ('{' :: behind) = m.start .operator (c :: '{' :: behind) := by
  rcases leadsInterpolation_cases leads with rfl | rfl <;>
    simp [startToken, startsNumber, startsRun, isDigit, isNameStart, isAfterLeader, isHexDigit,
      isGraphic, punctuate]

theorem AtLeader.startToken (leads : leadsInterpolation o.dialect c = true)
    (outside : m.style.isQuoted = false) (untouched : Untouched m.context k.context)
    (held : k.held = m.held) (after : k.after = m.after) :
    AtLeader c ('{' :: behind) m (k.startToken o c ('{' :: behind)) := by
  rw [startToken_leader leads]
  exact .token outside untouched held after

/-- A run of name characters ends in front of the mark, and is not the name of a declaration. -/
theorem closeRun_leader (leads : leadsInterpolation o.dialect c = true)
    (outside : m.style.isQuoted = false) :
    AtLeader c ('{' :: behind) m (m.closeRun o c ('{' :: behind)) := by
  have mark : c ≠ '(' ∧ c ≠ ':' ∧ isSeparator c = false := by
    rcases leadsInterpolation_cases leads with rfl | rfl <;> decide
  have ended (style : Style) {context : Context} (same : context = m.context) :
      AtLeader c ('{' :: behind) m
        (({ m with context := context }.restyle style).leaveRun o c ('{' :: behind)) := by
    subst same
    exact .startToken leads outside ⟨⟨rfl, rfl, rfl, rfl, rfl⟩, rfl, rfl⟩ rfl rfl
  unfold closeRun
  refine iteInduction (fun _ => ?_) fun _ => ended m.style rfl
  refine iteInduction (fun address => absurd address.2.1 mark.1) fun _ => ?_
  refine ended _ (Context.classifyRun_context (fun stop => mark.1 (Option.some.inj stop)) (.inr ?_))
  rw [if_neg mark.1, nextSolid, List.find?_cons_of_pos (by simp [mark.2.2])]
  split
  · exact fun colon => mark.2.1 (Option.some.inj colon)
  · exact (Option.some_ne_none ':').symm

/-- The mark opens within a string or a bare address. -/
theorem stepQuoted_leader (leads : leadsInterpolation o.dialect c = true)
    (quoted : m.style.isQuoted = true) :
    AtLeader c ('{' :: behind) m (m.stepQuoted o c ('{' :: behind)) := by
  have mark : c ≠ '\\' ∧ c ≠ ')' := by
    rcases leadsInterpolation_cases leads with rfl | rfl <;> decide
  have quote : closingQuote m.style ≠ some c := by
    rcases leadsInterpolation_cases leads with rfl | rfl <;> cases m.style <;> simp [closingQuote]
  rw [stepQuoted, if_neg mark.1, if_neg fun closes => mark.2 closes.1, if_neg quote,
    if_pos ⟨rfl, leads⟩]
  exact .quoted quoted

theorem stepRun_leader (leads : leadsInterpolation o.dialect c = true) (m : Machine) :
    AtLeader c ('{' :: behind) m (m.stepRun o c ('{' :: behind)) := by
  have mark := leadsInterpolation_cases leads
  have star : c ≠ '*' := by rcases mark with rfl | rfl <;> decide
  have run : isRunChar c = false := by rcases mark with rfl | rfl <;> rfl
  have leave (outside : m.style.isQuoted = false) :
      AtLeader c ('{' :: behind) m (m.leave o c ('{' :: behind)) :=
    .startToken leads outside (.refl _) rfl rfl
  unfold stepRun
  split
  case h_1 blank => exact .startToken leads (by rw [blank]; rfl) (.refl _) rfl rfl
  case h_5 number =>
    have goesOn : m.continuesNumber c ('{' :: behind) = false := by
      rcases mark with rfl | rfl <;> simp [continuesNumber, isNameChar, isNameStart, isDigit]
    have name : startsName c (some '{') = false := by rcases mark with rfl | rfl <;> rfl
    have sign : c ≠ '%' := by rcases mark with rfl | rfl <;> decide
    rw [if_neg (by simp [goesOn]), List.head?_cons, if_neg (by simp [name]), if_neg sign]
    exact leave (by rw [number]; rfl)
  case h_19 range =>
    have digit : isRangeChar c = false := by rcases mark with rfl | rfl <;> rfl
    have hyphen : c ≠ '-' := by rcases mark with rfl | rfl <;> decide
    rw [stepUnicodeRange, if_neg fun hyphens => hyphen hyphens.1, if_pos (.inr digit)]
    exact .startToken leads (by rw [range]; rfl) ⟨⟨rfl, rfl, rfl, rfl, rfl⟩, rfl, rfl⟩ rfl rfl
  case h_20 =>
    -- Only styles of finished runs and that of an escape sequence are left.
    refine .deaf ?_
    cases style : m.style <;> simp_all [Style.isDeaf, Style.isLive]
  all_goals
    rename_i style
    first
      | exact leave (by rw [style]; rfl)
      | exact stepQuoted_leader leads (by rw [style]; rfl)
      | exact iteInduction (fun closes => absurd closes.1 star) fun _ => .deaf (by rw [style]; rfl)
      | exact iteInduction (fun _ => leave (by rw [style]; rfl)) fun _ => .deaf (by rw [style]; rfl)
      | exact iteInduction (fun goesOn => absurd goesOn (by simp [run]))
          fun _ => closeRun_leader leads (by rw [style]; rfl)

/-- The machine at a character, in the style that the scan has there: around an escape sequence, if
one ends in front of it. -/
structure Around (m k : Machine) : Prop where
  untouched : Untouched m.context k.context
  held : k.held = m.held
  after : k.after = m.after
  surrounding : k.surrounding = m.surrounding
  outer : k.style = .escapeChar → k.context.escape.outer = .escapeChar

theorem look_leader (leads : leadsInterpolation o.dialect c = true) (behind : List Char)
    (m : Machine) :
    ∃ k, AtLeader c ('{' :: behind) k (m.look o c ('{' :: behind)) ∧ Around m k := by
  have digit : isHexDigit c = false := by
    rcases leadsInterpolation_cases leads with rfl | rfl <;> rfl
  unfold look
  split
  next escape =>
    rw [if_pos (.inr digit)]
    refine ⟨_, stepRun_leader leads _, ⟨⟨rfl, rfl, rfl, rfl, rfl⟩, rfl, rfl⟩, rfl, rfl, ?_, id⟩
    simp only [surrounding, escape, if_true]
    exact congrArg Style.around (ite_self _)
  next plain =>
    exact ⟨m, stepRun_leader leads m, .refl _, rfl, rfl, rfl, fun escape => absurd escape plain⟩

/-- What the scan has come to behind the mark that opens an interpolation, from `m` in front of
it. -/
structure Opened (m m' : Machine) : Prop where
  style : m'.style = .operator
  held : m'.held = 0
  after : m'.after = none
  nesting : SameNesting m.context m'.context
  foldNext : m'.context.foldNext = m.context.foldNext + 1
  interpolation : m'.context.interpolation = some m.surrounding
  latest : ∃ older, m'.latest = .operator :: .operator :: older

theorem opened_take (goesOn : lastOfLine '{' rest = false) (style : k.style = .operator)
    (held : k.held = 0) (after : k.after = none) (nesting : SameNesting m.context k.context)
    (foldNext : k.context.foldNext = m.context.foldNext + 1)
    (interpolation : k.context.interpolation = some m.surrounding) {older : List Style}
    (latest : k.latest = .operator :: older) : Opened m (k.take o '{' rest) := by
  have untouched := untouched_take (o := o) goesOn k
  obtain ⟨styleBehind, heldBehind, afterBehind⟩ :=
    @take_kept o '{' rest k fun _ => after
  exact {
    style := styleBehind.trans style
    held := heldBehind.trans held
    after := afterBehind.trans after
    nesting := nesting.trans untouched.toSameNesting
    foldNext := untouched.foldNext.trans foldNext
    interpolation := untouched.interpolation.trans interpolation
    latest := ⟨older, by rw [latest_take, style, latest]⟩ }

/-- Within a string the brace is taken with the character in front of it. -/
theorem Around.opens_quoted (h : Around m k) (after : m.after = none)
    (quoted : k.style.isQuoted = true) (goesOn : lastOfLine c ('{' :: rest) = false)
    (goesOn' : lastOfLine '{' rest = false) :
    Opened m (((((k.update fun x => { x.unfold with interpolation := some k.style }).start .operator
      (c :: '{' :: rest)).hold 1).take o c ('{' :: rest)).step o '{' rest) := by
  let k₁ := ((k.update fun x => { x.unfold with interpolation := some k.style }).start .operator
    (c :: '{' :: rest)).hold 1
  have untouched := untouched_take (o := o) goesOn k₁
  have latest := @latest_take o c ('{' :: rest) k₁
  obtain ⟨style, one, waits⟩ := @take_kept o c ('{' :: rest) k₁ fun free => nomatch free
  rw [step, if_neg (by rw [one]; exact Nat.one_ne_zero)]
  refine opened_take goesOn' style (by rw [one]; rfl) (waits.trans (h.after.trans after)) ?_ ?_ ?_
    latest
  · exact (h.untouched.toSameNesting.trans (Context.sameNesting_open _ _)).trans
      untouched.toSameNesting
  · exact untouched.foldNext.trans (congrArg (· + 1) h.untouched.foldNext)
  · rw [← h.surrounding, surrounding_of_isQuoted quoted]
    exact untouched.interpolation

/-- Outside all runs the brace is a token of its own, and the character in front of it tells what
it opens. -/
theorem Opened.of_brace (leads : leadsInterpolation o.dialect c = true)
    (style : k.style = .operator) (held : k.held = 0) (after : k.after = none)
    (previous : k.previous = some c) (untouched : Untouched m.context k.context)
    (outside : m.surrounding = .default)
    {older : List Style} (latest : k.latest = .operator :: older)
    (goesOn : lastOfLine '{' rest = false) : Opened m (k.step o '{' rest) := by
  have leaves : k.look o '{' rest = k.leave o '{' rest := by simp [look, stepRun, style]
  have brace : k.look o '{' rest =
      ((k.start .default ('{' :: rest)).start .operator ('{' :: rest)).update fun x =>
        { x.unfold with interpolation := some .default } := by
    rw [leaves, leave, startToken_mark (.inl rfl), punctuate, if_pos]
    rw [start, start, previous]
    exact leads
  rw [step, if_pos held, brace]
  refine opened_take goesOn rfl held after ?_ ?_ ?_ latest
  · exact untouched.toSameNesting.trans (Context.sameNesting_open _ _)
  · exact congrArg (· + 1) untouched.foldNext
  · rw [outside]
    rfl

theorem stepRun_deaf (deaf : m.style.isDeaf = true) (inside : m.atLineStart = false)
    (star : c ≠ '*') : m.stepRun o c rest = m := by
  unfold stepRun
  split <;> simp_all [Style.isDeaf, Style.isLive]

/-- In a comment nothing opens at the second character of the mark. -/
theorem look_deaf (deaf : m.style.isDeaf = true) (inside : m.atLineStart = false)
    (outer : m.style = .escapeChar → m.context.escape.outer = .escapeChar) :
    (m.look o '{' rest).context.interpolation = m.context.interpolation := by
  unfold look
  split
  next escape =>
    rw [if_pos (.inr rfl), stepRun_deaf _ _ (by decide)]
    · rfl
    · exact congrArg Style.isDeaf (outer escape)
    · exact inside
  next => rw [stepRun_deaf deaf inside (by decide)]

/-- Two characters that may open an interpolation open one in one of two ways, or not at all. -/
theorem step_leader (leads : leadsInterpolation o.dialect c = true) (held : m.held = 0)
    (after : m.after = none) (shut : m.context.interpolation = none) (more : rest ≠ []) :
    Opened m ((m.step o c ('{' :: rest)).step o '{' rest) ∨
      ((m.step o c ('{' :: rest)).step o '{' rest).context.interpolation = none := by
  obtain ⟨k, looked, around⟩ := look_leader leads rest m
  have plain : isLineBreak c = false := by
    rcases leadsInterpolation_cases leads with rfl | rfl <;> rfl
  have goesOn : lastOfLine c ('{' :: rest) = false := lastOfLine_eq_false plain nofun
  have goesOn' : lastOfLine '{' rest = false := lastOfLine_eq_false rfl more
  rw [show m.step o c ('{' :: rest) = (m.look o c ('{' :: rest)).take o c ('{' :: rest) from
    if_pos held]
  generalize m.look o c ('{' :: rest) = k' at looked ⊢
  -- The style at the first character decides which way the second one is read.
  cases looked with
  | quoted quoted => exact .inl (around.opens_quoted after quoted goesOn goesOn')
  | @token k₁ outside same free waits =>
    let k₂ := k₁.start .operator (c :: '{' :: rest)
    have idle : k₂.after = none := waits.trans (around.after.trans after)
    obtain ⟨style, heldBehind, afterBehind⟩ := @take_kept o c ('{' :: rest) k₂ fun _ => idle
    refine .inl (.of_brace leads style (heldBehind.trans (free.trans (around.held.trans held)))
      (afterBehind.trans idle) (previous_take k₂) ?_ ?_ (latest_take k₂) goesOn')
    · exact (around.untouched.trans same).trans (untouched_take goesOn k₂)
    · rw [← around.surrounding, surrounding_eq_default outside around.outer]
  | deaf deaf =>
    obtain ⟨style, heldBehind, -⟩ :=
      @take_kept o c ('{' :: rest) k fun _ => around.after.trans after
    have line := (@atLineStart_take o c ('{' :: rest) k).trans goesOn
    refine .inr ?_
    rw [step, if_pos (heldBehind.trans (around.held.trans held)),
      (untouched_take goesOn' _).interpolation, look_deaf (by rw [style, deaf]) line,
      (untouched_take goesOn k).interpolation, around.untouched.interpolation, shut]
    intro escape
    rw [escape_take]
    exact around.outer (style.symm.trans escape)

/-! ### Inside -/

/-- Within an interpolation, in a run of one of the tokens that leave the nesting alone. -/
structure Inside (x : Context) (m : Machine) : Prop where
  style : m.style.isPlainInside = true
  held : m.held = 0
  after : m.after = none
  context : Untouched x m.context

theorem punctuate_plain (plain : isPlainInside c = true) (m : Machine) :
    m.punctuate o c = m ∨ m.punctuate o c = m.restyle .operatorInCalc := by
  unfold punctuate
  split
  case h_10 =>
    split
    · exact .inr rfl
    · exact .inl rfl
  case h_13 => exact .inl rfl
  all_goals cases plain

/-- A word that the text begins with, and that ends in front of the brace, is plain. -/
theorem plain_of_prefix {word : List Char} (plain : ∀ d ∈ body, isPlainInside d = true)
    (front : word <+: body ++ '}' :: behind) (brace : '}' ∉ word) :
    ∀ d ∈ word, isPlainInside d = true := by
  rcases List.prefix_or_prefix_of_prefix front (List.prefix_append body _) with within | ⟨tail, rfl⟩
  · exact fun d member => plain d (within.subset member)
  · cases tail with
    | nil => rwa [List.append_nil]
    | cons d tail =>
      obtain ⟨rfl, -⟩ := List.cons_prefix_cons.mp ((List.prefix_append_right_inj body).mp front)
      exact absurd (List.mem_append_right body List.mem_cons_self) brace

/-- Only names, numbers and variables start at a plain character. -/
theorem Opening.inside {style : Style} {count : Nat} {context : Context}
    (opens : Opening c (body ++ '}' :: behind) x style count context)
    (plain : ∀ d ∈ c :: body, isPlainInside d = true) :
    style.isPlainInside = true ∧ count = 0 ∧ Untouched x context := by
  obtain ⟨first, others⟩ := List.forall_mem_cons.mp plain
  cases opens with
  | number => exact ⟨rfl, rfl, .refl x⟩
  | variableName | name => exact ⟨rfl, rfl, ⟨rfl, rfl, rfl, rfl, rfl⟩, rfl, rfl⟩
  | unicodeRange _ next =>
    obtain ⟨tail, same⟩ := List.head?_eq_some_iff.mp next
    have word : ['+'] <+: body ++ '}' :: behind := ⟨tail, same.symm⟩
    cases plain_of_prefix others word (by decide) '+' List.mem_cons_self
  | htmlOpen word => cases plain_of_prefix plain word (by decide) '<' (by decide)
  | htmlClose word => cases plain_of_prefix plain word (by decide) '>' (by decide)
  | lineComment _ mark | singleQuoted mark | doubleQuoted mark | atRule mark | pseudoElement mark
  | pseudoClass mark =>
    subst mark
    cases first

theorem TokenRule.inside (rule : TokenRule o c (body ++ '}' :: behind) k m') (h : Inside x k)
    (plain : ∀ d ∈ c :: body, isPlainInside d = true) : Inside x m' := by
  have first := plain c List.mem_cons_self
  cases rule with
  | blank => exact h
  | blockComment _ slash =>
    subst slash
    cases first
  | token opens =>
    obtain ⟨style, rfl, untouched⟩ := opens.inside plain
    exact ⟨style, rfl, h.after, h.context.trans untouched⟩
  | punctuation =>
    rcases punctuate_plain first (k.start .operator (c :: (body ++ '}' :: behind))) with same | sign
    · rw [same]
      exact ⟨rfl, h.held, h.after, h.context⟩
    · rw [sign]
      exact ⟨rfl, h.held, h.after, h.context⟩

/-- The run in progress ends in a context with the same nesting. -/
theorem Ending.untouched {style : Style} {context : Context} (ends : Ending o c m style context)
    (opened : m.context.interpolation.isSome = true) (paren : c ≠ '(') :
    Untouched m.context context := by
  cases ends with
  | plain | run => exact ⟨⟨rfl, rfl, rfl, rfl, rfl⟩, rfl, rfl⟩
  | @classified name e stop =>
    have stops : e.stop ≠ some '(' := by
      rw [stop]
      exact fun same => paren (Option.some.inj same)
    rw [Context.classifyRun_context stops (.inl opened)]
    exact ⟨⟨rfl, rfl, rfl, rfl, rfl⟩, rfl, rfl⟩

/-- Either the run in progress goes on with a character, or a token is looked for. -/
inductive InsideRule (o : ScanOptions) (c : Char) (rest : List Char) (x : Context) (m : Machine) :
    Machine → Prop
  | goesOn {m' : Machine} (inside : Inside x m')
      (admits : m.style ≠ .operator ∧ m.style.admits c = true ∨ startsName c rest.head? = true) :
      InsideRule o c rest x m m'
  | token {k : Machine} (inside : Inside x k) : InsideRule o c rest x m (k.startToken o c rest)

theorem Inside.look (h : Inside x m) (opened : x.interpolation.isSome = true)
    (mark : isPlainInside c = true ∨ c = '}') (rest : List Char) :
    InsideRule o c rest x m (m.look o c rest) := by
  obtain ⟨live, block, outside, plain⟩ := Style.of_isPlainInside h.style
  have other : c ≠ '(' ∧ c ≠ '%' := by
    constructor <;> rintro rfl <;> rcases mark with mark | mark <;> cases mark
  have rule := @look_rule o c rest m
  generalize m.look o c rest = m' at rule ⊢
  -- A plain run is none of a string, a comment or an address, whose rules do not apply.
  cases rule with
  | digit _ escape | resumes _ escape => exact absurd escape plain
  | runs _ rule =>
    cases rule with
    | stays left wide goesOn =>
      refine .goesOn ⟨h.style, h.held, h.after, h.context.trans ?_⟩ (.inl ⟨wide, goesOn live plain⟩)
      exact ⟨⟨rfl, rfl, rfl, rfl, rfl⟩, rfl, rfl⟩
    | blank => exact .token h
    | dimension _ starts => exact .goesOn { h with style := rfl } (.inr starts)
    | percent _ sign => exact absurd sign other.2
    | address _ paren => exact absurd paren other.1
    | commentEnd comment => cases block.symm.trans comment
    | escape quoted | interpolation quoted => cases outside.symm.trans quoted
    | quoteEnd quote => cases outside.symm.trans (isQuoted_of_closingQuote quote)
    | token ends =>
      refine .token ⟨rfl, h.held, h.after, h.context.trans (ends.untouched ?_ other.1)⟩
      rw [h.context.interpolation, opened]

theorem Inside.step (h : Inside x m) (opened : x.interpolation.isSome = true)
    (plain : ∀ d ∈ c :: body, isPlainInside d = true) :
    Inside x (m.step o c (body ++ '}' :: behind)) := by
  have first := plain c List.mem_cons_self
  have goesOn : lastOfLine c (body ++ '}' :: behind) = false := by
    refine lastOfLine_eq_false (Bool.eq_false_iff.mpr fun breaks => ?_) (by simp)
    rcases lineBreak_cases breaks with rfl | rfl <;> cases first
  have looked : Inside x (m.look o c (body ++ '}' :: behind)) := by
    have rule := h.look (o := o) opened (.inl first) (body ++ '}' :: behind)
    generalize m.look o c (body ++ '}' :: behind) = m' at rule ⊢
    cases rule with
    | goesOn inside => exact inside
    | token inside => exact (startToken_rule inside.held).inside inside plain
  obtain ⟨style, held, after⟩ :=
    @take_kept o c (body ++ '}' :: behind) _ fun _ => looked.after
  rw [Machine.step, if_pos h.held]
  exact ⟨by rw [style, looked.style], held.trans looked.held, after.trans looked.after,
    looked.context.trans (untouched_take goesOn _)⟩

/-- What stands in a plain interpolation leaves the nesting alone. -/
theorem Inside.run (h : Inside x m) (opened : x.interpolation.isSome = true)
    (plain : ∀ d ∈ body, isPlainInside d = true) :
    Inside x (m.run o body.length (body ++ '}' :: behind)) := by
  induction body generalizing m with
  | nil => exact h
  | cons c body ih => exact ih (h.step opened plain) (List.forall_mem_cons.mp plain).2

/-! ### The brace that closes -/

/-- The brace ends whatever run is in progress. -/
theorem Inside.look_brace (h : Inside x m) (opened : x.interpolation.isSome = true)
    (rest : List Char) :
    ∃ k, Inside x k ∧ m.look o '}' rest = (k.start .operator ('}' :: rest)).punctuate o '}' := by
  have rule := h.look (o := o) opened (.inr rfl) rest
  generalize m.look o '}' rest = m' at rule ⊢
  cases rule with
  | token inside => exact ⟨_, inside, startToken_mark (.inr (.inl rfl))⟩
  | goesOn _ admits =>
    -- No style of a plain run admits the brace, apart from an operator, which never goes on.
    have style := h.style
    rcases admits with ⟨wide, admits⟩ | starts
    · revert style wide admits
      cases m.style <;> simp [Style.isPlainInside, Style.admits, isGraphic, isRunChar, isNameChar,
        isNameStart, isDigit]
    · cases starts

/-- The scan is behind an interpolation, at `m'`, what it was in front of it, at `m`: it goes on in
the style that it had at the mark, and no run is in progress there. -/
structure Resumes (m m' : Machine) : Prop where
  style : m'.style = m.surrounding
  runLength : m'.runLength = 0
  held : m'.held = 0
  after : m'.after = none
  interpolation : m'.context.interpolation = none
  nesting : SameNesting m.context m'.context

/-- The brace is taken as a token of its own, and the style that was in front of the interpolation
goes on behind it. -/
theorem Inside.close (h : Inside x k) (nesting : SameNesting m.context x)
    (opened : x.interpolation = some m.surrounding) (rest : List Char) :
    Resumes m (k.step o '}' rest) ∧
      (rest ≠ [] → (k.step o '}' rest).context.foldNext = x.foldNext - 1) ∧
      ∃ older, (k.step o '}' rest).painted = .operator :: older := by
  obtain ⟨k₁, inside, looked⟩ := h.look_brace (o := o) (by rw [opened]; rfl) rest
  let k₂ := ((k₁.start .operator ('}' :: rest)).update fun x =>
    { x.refold with interpolation := none }).thenStart m.surrounding
  have closes : k.look o '}' rest = k₂ := by
    rw [looked, punctuate]
    simp only [Machine.start, inside.context.interpolation, opened]
    rfl
  rw [Machine.step, if_pos h.held, closes]
  have nested : SameNesting m.context k₂.context :=
    nesting.trans (inside.context.toSameNesting.trans ⟨rfl, rfl, rfl, rfl, rfl⟩)
  have folds : k₂.context.foldNext = x.foldNext - 1 :=
    congrArg (· - 1) inside.context.foldNext
  cases take_taken o '}' rest k₂ with
  | goesOn idle => cases idle inside.held
  | released _ waits style runLength held after painted =>
    obtain rfl := Option.some.inj waits
    refine ⟨⟨style, runLength, held, after, interpolation_take rfl, ?_⟩, fun more => ?_, _, painted⟩
    · exact nested.trans (sameNesting_take k₂)
    · rw [(untouched_take (lastOfLine_eq_false rfl more) k₂).foldNext, folds]

/-! ### From the mark to the brace -/

/-- The styles of operators that no run goes on are settled as soon as the next character is looked
at. -/
theorem painted_step_operator (style : m.style = .operator) (held : m.held = 0) :
    m.latest <:+ (m.step o c rest).painted := by
  have leaves : m.look o c rest = m.leave o c rest := by simp [look, stepRun, style]
  rw [step, if_pos held, leaves]
  refine List.IsSuffix.trans ?_ (painted_take _)
  rw [painted_leave held]
  exact List.suffix_rfl

/-- Nothing waits where nothing is held. -/
theorem idle_run {n : Nat} {text : List Char} (idle : m.held = 0 → m.after = none) :
    (m.run o n text).held = 0 → (m.run o n text).after = none := by
  induction n generalizing text m with
  | zero => exact idle
  | succ n ih =>
    cases text with
    | nil => exact idle
    | cons c rest =>
      refine ih fun held => ?_
      obtain ⟨k, taken, -⟩ := step_eq_take o c rest m
      rw [taken] at held ⊢
      cases take_taken o c rest k with
      | released _ _ _ _ _ after => exact after
      | goesOn idle _ _ heldBehind after => exact after.trans (idle (heldBehind.symm.trans held))

/-- The scan is behind an interpolation that it opened at `m`, with `behind` still to come. The
styles of the mark and of the brace are settled. -/
structure Closed (behind : List Char) (m m' : Machine) : Prop where
  resumes : Resumes m m'
  -- At the end of the text a line ends with the brace, and its fold level is clamped.
  foldNext : behind ≠ [] → m'.context.foldNext = m.context.foldNext
  mark : ∃ older, .operator :: .operator :: older <:+ m'.painted ∧
    older.length = m.latest.length
  brace : ∃ older, m'.painted = .operator :: older

/-- Behind the mark a scan comes to the brace. -/
theorem Opened.closed (h : Opened m k) (count : k.latest.length = m.latest.length + 2)
    (plain : ∀ d ∈ body, isPlainInside d = true) :
    Closed behind m (k.run o (body.length + 1) (body ++ '}' :: behind)) := by
  have some : k.context.interpolation.isSome = true := by rw [h.interpolation]; rfl
  have inside : Inside k.context k := ⟨by rw [h.style]; rfl, h.held, h.after, .refl _⟩
  have further : Inside k.context (k.run o body.length (body ++ '}' :: behind)) :=
    inside.run some plain
  have closes : k.run o (body.length + 1) (body ++ '}' :: behind) =
      (k.run o body.length (body ++ '}' :: behind)).step o '}' behind := run_front_add _ _ 1 _
  obtain ⟨resumes, folds, brace⟩ := further.close (o := o) h.nesting h.interpolation behind
  rw [← closes] at resumes folds brace
  refine ⟨resumes, fun more => ?_, ?_, brace⟩
  · rw [folds more, h.foldNext, Int.add_sub_cancel]
  · obtain ⟨older, latest⟩ := h.latest
    rw [latest] at count
    refine ⟨older, ?_, by simpa using count⟩
    -- Whatever comes next, the run of the mark ends in front of it.
    obtain ⟨d, tail, ahead⟩ := List.exists_cons_of_ne_nil (l := body ++ '}' :: behind) (by simp)
    rw [ahead, ← latest]
    exact (painted_step_operator h.style h.held).trans (painted_run _ _ _)

/-- A scan that opens an interpolation with a plain body comes to the brace that closes it. -/
theorem run_interpolation (leads : leadsInterpolation o.dialect c = true) (held : m.held = 0)
    (after : m.after = none) (shut : m.context.interpolation = none)
    (plain : ∀ d ∈ body, isPlainInside d = true)
    (opens : (m.run o 2 (c :: '{' :: (body ++ '}' :: behind))).context.interpolation ≠ none) :
    Closed behind m (m.run o (body.length + 3) (c :: '{' :: (body ++ '}' :: behind))) := by
  have opened := (step_leader leads held after shut (by simp)).resolve_right opens
  refine opened.closed ?_ plain
  rw [length_latest_step, length_latest_step]

end Machine

namespace Document

open Machine

variable {p : Place} {s : ScanSetup} {o : ScanOptions}

/-- A scan of a range comes, behind `k` characters of it, to a mark at which it opens an
interpolation while none is open. Up to the brace that closes it there are plain characters only. -/
structure PlainInterpolation (d : Document) (start k : Nat) (initStyle : Style) (o : ScanOptions)
    (context : Context) (body behind : List Char) : Prop where
  mark : ∃ c, leadsInterpolation o.dialect c = true ∧
    d.text.drop (start + k) = c :: '{' :: (body ++ '}' :: behind)
  plain : ∀ c ∈ body, isPlainInside c = true
  -- The mark is looked at: its first character is not part of a token that began in front of it.
  held : (d.scanMachine start k initStyle o context).held = 0
  shut : (d.scanMachine start k initStyle o context).context.interpolation = none
  opens : (d.scanMachine start (k + 2) initStyle o context).context.interpolation ≠ none

/-- A style that the scan has settled is the one that is stored. -/
theorem Sized.styleAt_scanFrom {d : Document} (sized : d.Sized) {start n : Nat}
    (fits : start + n ≤ d.text.length) {initStyle : Style} {context : Context} {k : Nat}
    {style : Style} {older : List Style}
    (settled : style :: older <:+ (d.scanMachine start k initStyle o context).painted)
    (le : k ≤ n) {i : Nat} (place : older.length = i) :
    (d.scanFrom start n initStyle o context).1.styleAt (start + i : Nat) = .ok style := by
  have size := d.length_latest_scanMachine fits initStyle o context
  have final : List.replicate 1 style ++ older <:+
      (d.scanMachine start n initStyle o context).latest := by
    obtain ⟨rest, rfl⟩ := Nat.exists_eq_add_of_le le
    rw [scanMachine_add]
    exact (settled.trans (painted_run _ _ _)).trans (List.suffix_append _ _)
  have inside : older.length + 1 ≤ n := by simpa [size, Nat.add_comm] using final.length_le
  rw [styleAt, itemAt_eq_ok_iff, styles_scanFrom, getElem?_overlay,
    getElem?_reverse_of_suffix final (by omega) (by omega)]
  · have := sized.styles
    omega
  · rw [List.length_reverse]
    omega

/-- A closed interpolation is transparent to its surroundings: its mark and its brace are
operators, and the scan goes on behind it in the style and the nesting that it had in front. This
holds of every scan of a range, from whichever position and style it starts. -/
theorem scan_interpolation (options : s.options p = .ok o) {d : Document} (sized : d.Sized)
    {start n : Nat} (fits : start + n ≤ d.text.length) {initStyle : Style} {context : Context}
    (restored : d.contextAt start initStyle = .ok context) :
    ∃ d' r, d.scan p s start n initStyle = .ok (d', r) ∧
      ∀ {k : Nat} {body behind : List Char},
        d.PlainInterpolation start k initStyle o context body behind → k + body.length + 3 ≤ n →
          let front := d.scanMachine start k initStyle o context
          let back := d.scanMachine start (k + body.length + 3) initStyle o context
          d'.styleAt (start + k : Nat) = .ok .operator ∧
            d'.styleAt (start + (k + 1) : Nat) = .ok .operator ∧
            d'.styleAt (start + (k + body.length + 2) : Nat) = .ok .operator ∧
            Resumes front back ∧
            (behind ≠ [] → back.context.foldNext = front.context.foldNext) := by
  refine ⟨_, _, scan_eq options d fits restored, fun {k body behind} h inside => ?_⟩
  intro front back
  obtain ⟨c, leads, ahead⟩ := h.mark
  have size : front.latest.length = k := d.length_latest_scanMachine (by omega) ..
  have size' : back.latest.length = k + body.length + 3 :=
    d.length_latest_scanMachine (by omega) ..
  have after : front.after = none := idle_run (fun _ => rfl) h.held
  have reached : back = front.run o (body.length + 3) (c :: '{' :: (body ++ '}' :: behind)) := by
    rw [← ahead]
    exact d.scanMachine_add start (body.length + 3) initStyle o context k
  have opens := h.opens
  rw [scanMachine_add, ahead] at opens
  have closed := run_interpolation leads h.held after h.shut h.plain opens
  rw [← reached] at closed
  obtain ⟨older, mark, place⟩ := closed.mark
  obtain ⟨older', brace⟩ := closed.brace
  refine ⟨?_, ?_, ?_, closed.resumes, closed.foldNext⟩
  · exact sized.styleAt_scanFrom fits ((List.suffix_cons _ _).trans mark) inside (place.trans size)
  · exact sized.styleAt_scanFrom fits mark inside (by rw [List.length_cons, place, size])
  · refine sized.styleAt_scanFrom fits ⟨[], brace.symm⟩ inside ?_
    rw [latest, closed.resumes.runLength, brace] at size'
    simpa using size'

/-- An interpolation in a string, behind which the string goes on. -/
theorem scan_interpolation_string :
    let o : ScanOptions := ⟨.scss, true, .builtin⟩
    let s : ScanSetup := { config := { dialect := .dialect .scss } }
    let d := ofChars ['"', '#', '{', 'a', '-', '1', '}', 'b', '"']
    s.options default = .ok o ∧ d.Sized ∧ 0 + 9 ≤ d.text.length ∧
      d.contextAt 0 .default = .ok .initial ∧
      d.PlainInterpolation 0 1 .default o .initial ['a', '-', '1'] ['b', '"'] ∧
      ∃ d' r, d.scan default s (0 : Nat) (9 : Nat) .default = .ok (d', r) ∧
        d'.styleAt 1 = .ok .operator ∧ d'.styleAt 2 = .ok .operator ∧
        d'.styleAt 6 = .ok .operator ∧
        (d.scanMachine 0 7 .default o .initial).style = .doubleQuoted := by
  intro o s d
  have options : s.options default = .ok o := rfl
  have sized : d.Sized := sized_ofChars _
  have restored : d.contextAt 0 .default = .ok .initial := d.contextAt_zero .default
  have plain : d.PlainInterpolation 0 1 .default o .initial ['a', '-', '1'] ['b', '"'] :=
    ⟨⟨'#', rfl, rfl⟩, List.all_eq_true.mp rfl, rfl, rfl, by decide⟩
  obtain ⟨d', r, scanned, transparent⟩ :=
    scan_interpolation (n := 9) options sized (by decide) restored
  obtain ⟨first, second, brace, resumes, -⟩ := transparent plain (by decide)
  exact ⟨options, sized, by decide, restored, plain, d', r, scanned, first, second, brace,
    resumes.style.trans rfl⟩

end Document

end CssHighlight
