import CssHighlight.Proofs.Simulation
import CssHighlight.Proofs.SoundContext

/-!
# Looking at a character

What the rules remember of the last significant character is what looking back over the finished
styles would find. The rule for a character relies on that, and leaves the machine ready to take
the character: what it holds back breaks no line, and a line break is taken only inside strings,
comments and blank text.
-/
namespace CssHighlight

namespace Machine

/-- What the machine remembers of the characters that were taken, the latest first. -/
structure Coherent (seen : List Char) (m : Machine) : Prop where
  sound : m.context.Sound
  behind : lookBehind seen m.latest = (m.context.lastChar, m.context.lastStyle)
  size : m.latest.length = seen.length

/-- The machine before a character that nothing holds. -/
structure Ready (seen : List Char) (m : Machine) : Prop extends Coherent seen m where
  settled : m.context.mathPending = false
  held : m.held = 0
  after : m.after = none
  live : m.style.isLive = true
  escape : m.style = .escapeChar → m.context.escape.outer.isQuoted = true
  short : m.runLength = 0 → m.style.isBase = true

/-- The machine when a character was looked at and is about to be taken. -/
structure Looked (seen : List Char) (c : Char) (rest : List Char) (m : Machine) : Prop where
  sound : m.context.Sound
  behind : m.style.isSpace = true →
    lookBehind seen m.latest = (m.context.lastChar, m.context.lastStyle)
  size : m.latest.length = seen.length
  settled : m.context.mathPending = false
  live : m.style.isLive = true
  escape : m.style = .escapeChar → m.context.escape.outer.isQuoted = true
  after : ∀ style, m.after = some style → style.isBase = true
  held : ∀ x ∈ rest.take m.held, isLineBreak x = false
  name : m.style = .identifier → m.held = 0 ∧ m.after = none ∧ isRunChar c = true
  rests : isLineBreak c = true → m.style.isResting = true ∧ m.held = 0 ∧ m.after = none

section Looking

variable {o : ScanOptions} {seen : List Char} {c : Char} {rest text : List Char} {m : Machine}

theorem Coherent.update (h : Coherent seen m) {f : Context → Context}
    (sound : (f m.context).Sound) (lastChar : (f m.context).lastChar = m.context.lastChar)
    (lastStyle : (f m.context).lastStyle = m.context.lastStyle) :
    Coherent seen (m.update f) :=
  ⟨sound, by simp only [Machine.update, lastChar, lastStyle]; exact h.behind, h.size⟩

theorem Coherent.start (h : Coherent seen m) (style : Style) (text : List Char) :
    Coherent seen (m.start style text) :=
  ⟨h.sound, by rw [latest_start]; exact h.behind, by rw [latest_start]; exact h.size⟩

/-- A run with a character in it may get another style that counts as no blank. -/
theorem Coherent.leaveAs (h : Coherent seen m) (some : m.runLength ≠ 0)
    (old : m.style.isSpace = false) {style : Style} (solid : style.isSpace = false)
    {context : Context} (sound : context.Sound) (lastChar : context.lastChar = m.context.lastChar)
    (text : List Char) :
    Coherent seen
      ((({ m with context := context }.restyle style).update fun context =>
        { context with lastStyle := style }).start .default text) := by
  obtain ⟨k, length⟩ := Nat.exists_eq_succ_of_ne_zero some
  have behind := h.behind
  have size := h.size
  simp only [latest, length, List.replicate_succ, List.cons_append] at behind size
  cases seen with
  | nil => simp at size
  | cons c seen =>
    rw [lookBehind_solid old] at behind
    refine ⟨{ sound with }, ?_, ?_⟩
    · simp only [latest, Machine.start, Machine.update, Machine.restyle, length,
        List.replicate_zero, List.nil_append, List.replicate_succ, List.cons_append,
        lookBehind_solid solid, lastChar, (Prod.mk.inj behind).1]
    · simpa only [latest, Machine.start, Machine.update, Machine.restyle, length,
        List.replicate_zero, List.nil_append, List.replicate_succ, List.cons_append,
        List.length_cons, List.length_append, List.length_replicate] using size

theorem Ready.stay (h : Ready seen m) (name : m.style = .identifier → isRunChar c = true)
    (rests : isLineBreak c = true → m.style.isResting = true) : Looked seen c rest m :=
  { h with
    behind := fun _ => h.behind
    after := by simp [h.after]
    held := by simp [h.held]
    name := fun identifier => ⟨h.held, h.after, name identifier⟩
    rests := fun breaks => ⟨rests breaks, h.held, h.after⟩ }

theorem Coherent.token (h : Coherent seen m) (held : m.held = 0) (after : m.after = none)
    (settled : m.context.mathPending = false) (goesOn : isLineBreak c = false) {style : Style}
    (live : style.isLive = true)
    (escape : style = .escapeChar → m.context.escape.outer.isQuoted = true)
    (name : style = .identifier → isRunChar c = true) (text : List Char) :
    Looked seen c rest (m.start style text) :=
  { h.start style text with
    behind := fun _ => (h.start style text).behind
    settled := settled
    live := live
    escape := escape
    after := by simp [Machine.start, after]
    held := by simp [Machine.start, held]
    name := fun identifier => ⟨held, after, name identifier⟩
    rests := fun breaks => by simp [goesOn] at breaks }

theorem Looked.hold (h : Looked seen c rest m) (goesOn : isLineBreak c = false)
    (name : m.style ≠ .identifier) {count : Nat}
    (held : ∀ x ∈ rest.take count, isLineBreak x = false) : Looked seen c rest (m.hold count) :=
  { h with
    held := held
    name := fun identifier => absurd identifier name
    rests := fun breaks => by simp [goesOn] at breaks }

theorem Looked.thenStart (h : Looked seen c rest m) (goesOn : isLineBreak c = false)
    (name : m.style ≠ .identifier) {style : Style} (base : style.isBase = true) :
    Looked seen c rest (m.thenStart style) :=
  { h with
    after := by rintro _ ⟨⟩; exact base
    name := fun identifier => absurd identifier name
    rests := fun breaks => by simp [goesOn] at breaks }

/-- Punctuation is taken on its own, whatever it does to the nesting. -/
theorem Coherent.punctuate (h : Coherent seen m) (held : m.held = 0) (after : m.after = none)
    (operator : m.style = .operator) (fresh : m.runLength = 0)
    (settled : c = '(' ∨ m.context.mathPending = false) (goesOn : isLineBreak c = false) :
    Looked seen c rest (m.punctuate o c) := by
  have nesting {f : Context → Context} (sound : (f m.context).Sound)
      (lastChar : (f m.context).lastChar = m.context.lastChar)
      (lastStyle : (f m.context).lastStyle = m.context.lastStyle)
      (settled : (f m.context).mathPending = false) : Looked seen c rest (m.update f) :=
    { h.update sound lastChar lastStyle with
      behind := fun _ => (h.update sound lastChar lastStyle).behind
      settled := settled
      live := by simp only [Machine.update, operator, Style.isLive]
      escape := by simp [Machine.update, operator]
      after := by simp [Machine.update, after]
      held := by simp [Machine.update, held]
      name := by simp [Machine.update, operator]
      rests := by simp [goesOn] }
  have sound := h.sound
  by_cases paren : c = '('
  · subst paren
    have entered : m.context.unfold.enterParen.Sound := Context.Sound.enterParen { sound with }
    refine nesting (f := fun c => c.unfold.enterParen.enterMath) entered.enterMath ?_ ?_
      (Context.enterMath_settled _)
    · unfold Context.enterMath
      split <;> rfl
    · unfold Context.enterMath
      split <;> rfl
  · have calm := settled.resolve_left paren
    have unchanged : Looked seen c rest m := nesting (f := id) sound rfl rfl calm
    have sign : Looked seen c rest
        (if m.context.joinsOperands then m.restyle .operatorInCalc else m) := by
      split
      · have latest : (m.restyle .operatorInCalc).latest = m.latest := by
          simp [Machine.latest, Machine.restyle, fresh]
        exact { unchanged with
          behind := by rintro ⟨⟩
          size := by rw [latest]; exact h.size
          live := rfl
          escape := by rintro ⟨⟩
          name := by rintro ⟨⟩
          rests := by simp [goesOn] }
      · exact unchanged
    clear settled
    unfold Machine.punctuate
    split
    -- Braces of an interpolation or of a block.
    · split
      · exact nesting { sound with resumes := by rintro _ ⟨⟩; rfl } rfl rfl calm
      · exact nesting (Context.Sound.newBlock { sound with }) rfl rfl calm
    · split
      next open_ =>
        have closed : Looked seen '}' rest
            (m.update fun c => { c.refold with interpolation := none }) :=
          nesting { sound with resumes := by rintro _ ⟨⟩ } rfl rfl calm
        refine closed.thenStart goesOn ?_ (sound.resumes _ open_)
        simp [Machine.update, operator]
      · exact nesting (Context.Sound.newBlock { sound with }) rfl rfl calm
    -- Brackets and parentheses.
    · exact nesting { sound with } rfl rfl calm
    · exact nesting { sound with } rfl rfl calm
    · exact absurd rfl paren
    · exact nesting (Context.Sound.leaveParen { sound with }) rfl rfl calm
    -- The colon and the semicolon of a declaration.
    · split
      · exact nesting { sound with } rfl rfl calm
      · exact unchanged
    · split
      · exact nesting { sound with } rfl rfl calm
      · exact unchanged
    -- Arithmetic signs.
    · exact sign
    · exact sign
    · exact sign
    · exact sign
    · exact unchanged

/-- A class that has neither character of a line break has no character that breaks a line. -/
private theorem isLineBreak_eq_false {p : Char → Bool} {x : Char} (holds : p x = true)
    (feed : p '\n' = false) (carriage : p '\r' = false) : isLineBreak x = false := by
  refine Bool.eq_false_iff.mpr ?_
  intro breaks
  rcases lineBreak_cases breaks with rfl | rfl
  · simp [feed] at holds
  · simp [carriage] at holds

private theorem goesOn_take_one {p : Char → Bool} (found : rest.head?.any p = true)
    (feed : p '\n' = false) (carriage : p '\r' = false) :
    ∀ x ∈ rest.take 1, isLineBreak x = false := by
  cases rest with
  | nil => simp
  | cons y rest =>
    simpa using isLineBreak_eq_false (by simpa using found) feed carriage

private theorem goesOn_take_two {p : Char → Bool} {y : Char} (next : rest.head? = some y)
    (third : rest.tail.head?.any p = true) (first : isLineBreak y = false)
    (feed : p '\n' = false) (carriage : p '\r' = false) :
    ∀ x ∈ rest.take 2, isLineBreak x = false := by
  cases rest with
  | nil => simp
  | cons z rest =>
    obtain rfl : z = y := by simpa using next
    have second := goesOn_take_one third feed carriage
    rw [List.take_succ_cons]
    exact List.forall_mem_cons.mpr ⟨first, second⟩

private theorem goesOn_of_isPrefixOf {word : List Char}
    (found : (c :: word).isPrefixOf (c :: rest) = true)
    (goesOn : ∀ x ∈ word, isLineBreak x = false) :
    ∀ x ∈ rest.take word.length, isLineBreak x = false := by
  obtain ⟨behind, cut⟩ := List.isPrefixOf_iff_prefix.mp found
  obtain rfl : word ++ behind = rest := by simpa using cut
  simpa using goesOn

theorem startToken_paren (o : ScanOptions) (rest : List Char) (m : Machine) :
    m.startToken o '(' rest = (m.start .operator ('(' :: rest)).punctuate o '(' := by
  simp [Machine.startToken, startsNumber, startsRun, isDigit, isNameStart, isGraphic]

/-- Whichever token starts at a character, it is ready to be taken. -/
theorem Coherent.startToken (h : Coherent seen m) (held : m.held = 0) (after : m.after = none)
    (blank : m.style = .default) (settled : c = '(' ∨ m.context.mathPending = false) :
    Looked seen c rest (m.startToken o c rest) := by
  have stays (calm : m.context.mathPending = false) : Looked seen c rest m :=
    { h with
      behind := fun _ => h.behind
      settled := calm
      live := by rw [blank]; rfl
      escape := by simp [blank]
      after := by simp [after]
      held := by simp [held]
      name := by simp [blank]
      rests := fun _ => ⟨by rw [blank]; rfl, held, after⟩ }
  by_cases paren : c = '('
  · subst paren
    rw [startToken_paren]
    exact (h.start _ _).punctuate held after rfl rfl (.inl rfl) rfl
  have calm := settled.resolve_left paren
  cases breaks : isLineBreak c with
  | true =>
    rw [startToken_lineBreak o breaks]
    exact stays calm
  | false =>
    have token {m : Machine} (h : Coherent seen m) (held : m.held = 0) (after : m.after = none)
        (calm : m.context.mathPending = false) {style : Style}
        (plain : style.isLive = true ∧ style ≠ .escapeChar ∧ style ≠ .identifier) :
        Looked seen c rest (m.start style (c :: rest)) :=
      h.token held after calm breaks plain.1 (fun same => absurd same plain.2.1)
        (fun same => absurd same plain.2.2) _
    have word {m : Machine} (h : Coherent seen m) (held : m.held = 0) (after : m.after = none)
        (calm : m.context.mathPending = false) {style : Style}
        (plain : style.isLive = true ∧ style ≠ .escapeChar ∧ style ≠ .identifier) {count : Nat}
        (ahead : ∀ x ∈ rest.take count, isLineBreak x = false) :
        Looked seen c rest ((m.start style (c :: rest)).hold count) :=
      (token h held after calm plain).hold breaks plain.2.2 ahead
    simp only [Machine.startToken]
    -- Comments of both kinds hold the second character of their delimiter.
    refine iteInduction (fun opens => ?_) fun _ => ?_
    · have unfolded : Coherent seen (m.update Context.unfold) :=
        h.update { h.sound with } rfl rfl
      have ahead : ∀ x ∈ rest.take 1, isLineBreak x = false :=
        goesOn_take_one (p := (· == '*')) (by simp [opens.2]) rfl rfl
      split
      · exact word unfolded held after calm (by decide) ahead
      · exact word unfolded held after calm (by decide) ahead
    refine iteInduction (fun opens => ?_) fun _ => ?_
    · have ahead : ∀ x ∈ rest.take 1, isLineBreak x = false :=
        goesOn_take_one (p := (· == '/')) (by simp [opens.2]) rfl rfl
      split
      · exact word h held after calm (by decide) ahead
      · exact word h held after calm (by decide) ahead
    -- Strings, the delimiters of Html comments, and numbers.
    refine iteInduction (fun _ => token h held after calm (by decide)) fun _ => ?_
    refine iteInduction (fun _ => token h held after calm (by decide)) fun _ => ?_
    refine iteInduction (fun opens => ?_) fun _ => ?_
    · obtain rfl : '<' = c := by simpa using (Bool.and_eq_true_iff.mp opens).1
      exact word h held after calm (by decide) (goesOn_of_isPrefixOf opens (by simp [isLineBreak]))
    refine iteInduction (fun closes => ?_) fun _ => ?_
    · obtain rfl : '-' = c := by simpa using (Bool.and_eq_true_iff.mp closes).1
      exact word h held after calm (by decide) (goesOn_of_isPrefixOf closes (by simp [isLineBreak]))
    refine iteInduction (fun _ => token h held after calm (by decide)) fun _ => ?_
    -- Unicode ranges hold their plus sign.
    refine iteInduction (fun range => ?_) fun _ => ?_
    · have ahead : ∀ x ∈ rest.take 1, isLineBreak x = false :=
        goesOn_take_one (p := (· == '+')) (by simp [range.1]) rfl rfl
      have counted : Coherent seen (m.update fun c =>
          { c with escape := { c.escape with digitsLeft := unicodeRangeDigits } }) :=
        h.update { h.sound with } rfl rfl
      exact word counted held after calm (by decide) ahead
    -- Names, of which only plain ones are looked at again when they end.
    refine iteInduction (fun starts => ?_) fun _ => ?_
    · have remembers : Coherent seen
          (m.update fun c => { c with before := c.lastChar }) := h.update { h.sound with } rfl rfl
      by_cases rule : c = '@'
      · rw [if_pos rule]
        exact token remembers held after calm (by decide)
      by_cases variable_ : c = '$'
      · rw [if_neg rule, if_pos variable_]
        exact token remembers held after calm (by decide)
      rw [if_neg rule, if_neg variable_]
      refine remembers.token held after calm breaks rfl Style.noConfusion (fun _ => ?_) _
      simp only [startsRun, rule, variable_, beq_eq_false_iff_ne.mpr, ne_eq, not_false_eq_true,
        Bool.or_false, Bool.false_and, Bool.or_eq_true, Bool.and_eq_true] at starts
      simp only [isRunChar, isNameChar, Bool.or_eq_true]
      exact starts.imp .inl And.left
    -- Pseudo-elements, pseudo-classes, and all other punctuation.
    refine iteInduction (fun element => ?_) fun _ => ?_
    · exact word h held after calm (by decide) (goesOn_take_two element.2.1 element.2.2 rfl rfl rfl)
    refine iteInduction (fun pseudo => ?_) fun _ => ?_
    · exact word h held after calm (by decide) (goesOn_take_one pseudo.2.2 rfl rfl)
    refine iteInduction (fun _ => ?_) fun _ => stays calm
    exact (h.start _ _).punctuate held after rfl rfl (.inr calm) breaks

theorem Ready.leave (h : Ready seen m) : Looked seen c rest (m.leave o c rest) :=
  (h.start _ _).startToken h.held h.after rfl (.inr h.settled)

/-- A run of name characters ends, under its final style. -/
theorem Ready.leaveRun (h : Ready seen m) (started : m.style.isBase = false)
    (old : m.style.isSpace = false) {x : Style × Context}
    (final : Context.Classified c m.context x) :
    Looked seen c rest (({ m with context := x.2 }.restyle x.1).leaveRun o c rest) := by
  have some : m.runLength ≠ 0 := by
    intro empty
    rw [h.short empty] at started
    exact Bool.noConfusion started
  refine (h.leaveAs some old final.solid final.sound final.lastChar _).startToken h.held h.after
    rfl ?_
  -- A pending math function is settled by the parenthesis that ended its name.
  cases pending : x.2.mathPending with
  | true => exact .inl (final.settled pending)
  | false => exact .inr pending

theorem Ready.closeRun (h : Ready seen m) (started : m.style.isBase = false)
    (old : m.style.isSpace = false) : Looked seen c rest (m.closeRun o c rest) := by
  unfold Machine.closeRun
  refine iteInduction (fun _ => ?_) fun _ => ?_
  · refine iteInduction (fun opens => ?_) fun _ => ?_
    · have entered : Coherent seen (m.update fun context => context.unfold.enterParen) :=
        h.update (Context.Sound.enterParen { h.sound with }) rfl rfl
      obtain ⟨-, rfl, -⟩ := opens
      refine Looked.thenStart ?_ rfl (by simp [Machine.start]) rfl
      exact entered.token h.held h.after h.settled rfl rfl (by simp) (by simp) _
    · exact h.leaveRun started old (Context.classifyRun_classified h.sound h.settled old _ _ rfl)
  · have same : Context.Classified c m.context (m.style, m.context) :=
      ⟨old, h.sound, rfl, fun pending => by simp [h.settled] at pending⟩
    exact h.leaveRun started old same

theorem Ready.stepQuoted (h : Ready seen m) (quoted : m.style.isQuoted = true) :
    Looked seen c rest (m.stepQuoted o c rest) := by
  have base := Style.isBase_of_isQuoted quoted
  have resting := Style.isResting_of_isBase base
  have name : m.style ≠ .identifier := by
    intro identifier
    simp [identifier, Style.isQuoted] at quoted
  have stays : Looked seen c rest m := h.stay (fun same => absurd same name) fun _ => resting
  cases breaks : isLineBreak c with
  | true =>
    rw [stepQuoted_lineBreak o breaks]
    exact stays
  | false =>
    unfold Machine.stepQuoted
    -- An escape sequence holds the character behind the backslash, which breaks no line.
    refine iteInduction (fun escape => ?_) fun _ => ?_
    · refine iteInduction (fun _ => stays) fun goesOn => ?_
      have interrupted : Coherent seen (m.update fun context =>
          { context with
            escape := ⟨m.style, if rest.head?.any isHexDigit then escapeDigits else 1⟩ }) :=
        h.update { h.sound with } rfl rfl
      refine Looked.hold ?_ breaks (by simp [Machine.start]) ?_
      · exact interrupted.token h.held h.after h.settled breaks rfl (fun _ => quoted) (by simp) _
      · cases rest with
        | nil => simp
        | cons y rest => simpa using goesOn
    refine iteInduction (fun _ => h.leave) fun _ => ?_
    refine iteInduction (fun _ => stays.thenStart breaks name rfl) fun _ => ?_
    -- An interpolation holds its brace, and keeps the style of the string.
    refine iteInduction (fun opens => ?_) fun _ => stays
    have entered : Coherent seen (m.update fun context =>
        { context.unfold with interpolation := some m.style }) :=
      h.update { h.sound with resumes := by rintro _ ⟨⟩; exact base } rfl rfl
    refine Looked.hold ?_ breaks (by simp [Machine.start]) ?_
    · exact entered.token h.held h.after h.settled breaks rfl (by simp) (by simp) _
    · exact goesOn_take_one (p := (· == '{')) (by simp [opens.1]) rfl rfl

/-- Counting the characters of an escape sequence changes nothing else. -/
theorem Ready.count (h : Ready seen m) (left : Context → Int) :
    Ready seen (m.update fun context =>
      { context with escape := { context.escape with digitsLeft := left context } }) :=
  { h with sound := { h.sound with } }

/-- A string starts again. -/
theorem Ready.restart (h : Ready seen m) {style : Style} (quoted : style.isQuoted = true)
    (text : List Char) : Ready seen (m.start style text) :=
  { h.start style text with
    settled := h.settled
    held := h.held
    after := h.after
    live := Style.isLive_of_isResting (Style.isResting_of_isBase (Style.isBase_of_isQuoted quoted))
    escape := by
      rintro rfl
      cases quoted
    short := fun _ => Style.isBase_of_isQuoted quoted }

theorem Ready.stepUnicodeRange (h : Ready seen m) (range : m.style = .unicodeRange) :
    Looked seen c rest (m.stepUnicodeRange o c rest) := by
  unfold Machine.stepUnicodeRange
  refine iteInduction (fun hyphen => ?_) fun _ => ?_
  · refine (h.count _).stay (fun name => ?_) fun breaks => ?_
    · simp [Machine.update, range] at name
    · simp [hyphen.1, isLineBreak] at breaks
  · refine iteInduction (fun _ => (h.count _).leave) fun goesOn => ?_
    have digit : isRangeChar c = true := by simpa using (not_or.mp goesOn).2
    refine (h.count _).stay (fun name => ?_) fun breaks => ?_
    · simp [Machine.update, range] at name
    · simp [isLineBreak_eq_false digit rfl rfl] at breaks

theorem Ready.stepNumber (h : Ready seen m) (number : m.style = .number) :
    Looked seen c rest
      (if m.continuesNumber c rest then m
      else if startsName c rest.head? then m.restyle .dimension
      else if c = '%' then m.thenStart .default
      else m.leave o c rest) := by
  have name : m.style ≠ .identifier := by simp [number]
  refine iteInduction (fun goesOn => ?_) fun _ => ?_
  · have inside : isLineBreak c = false :=
      isLineBreak_eq_false (p := fun c => m.continuesNumber c rest) goesOn
        (by simp [continuesNumber, isNameChar, isNameStart, isDigit])
        (by simp [continuesNumber, isNameChar, isNameStart, isDigit])
    exact h.stay (fun same => absurd same name) (by simp [inside])
  refine iteInduction (fun starts => ?_) fun _ => ?_
  · have breaks : isLineBreak c = false := isLineBreak_eq_false
      (p := fun c => startsName c rest.head?) starts rfl rfl
    have size : (m.restyle .dimension).latest.length = m.latest.length := by
      simp [Machine.latest, Machine.restyle]
    exact { h with
      behind := by rintro ⟨⟩
      size := size.trans h.size
      live := rfl
      escape := by rintro ⟨⟩
      after := by simp [Machine.restyle, h.after]
      held := by simp [Machine.restyle, h.held]
      name := by rintro ⟨⟩
      rests := by simp [breaks] }
  refine iteInduction (fun percent => ?_) fun _ => h.leave
  subst percent
  exact (h.stay (fun same => absurd same name) (by simp [isLineBreak])).thenStart rfl name rfl

theorem Ready.stepRun (h : Ready seen m) (plain : m.style ≠ .escapeChar) :
    Looked seen c rest (m.stepRun o c rest) := by
  have comment (resting : m.style.isResting = true) (name : m.style ≠ .identifier) :
      Looked seen c rest
        (if c = '*' ∧ rest.head? = some '/' then
          ((m.update Context.refold).hold 1).thenStart .default
        else m) := by
    have stays : Looked seen c rest m := h.stay (fun same => absurd same name) fun _ => resting
    refine iteInduction (fun closes => ?_) fun _ => stays
    have refolded : Looked seen c rest (m.update Context.refold) :=
      { stays with sound := { h.sound with } }
    have breaks : isLineBreak c = false := by rw [closes.1]; rfl
    refine (refolded.hold breaks name ?_).thenStart breaks name rfl
    exact goesOn_take_one (p := (· == '/')) (by simp [closes.2]) rfl rfl
  have lineComment (resting : m.style.isResting = true) (name : m.style ≠ .identifier) :
      Looked seen c rest (if m.atLineStart then m.leave o c rest else m) :=
    iteInduction (fun _ => h.leave) fun _ =>
      h.stay (fun same => absurd same name) fun _ => resting
  have run (started : m.style.isBase = false) (old : m.style.isSpace = false) :
      Looked seen c rest (if isRunChar c then m else m.closeRun o c rest) := by
    refine iteInduction (fun goesOn => ?_) fun _ => h.closeRun started old
    refine h.stay (fun _ => goesOn) ?_
    intro breaks
    simp [isLineBreak_eq_false goesOn rfl rfl] at breaks
  unfold Machine.stepRun
  split
  case h_1 blank => exact h.startToken h.held h.after blank (.inr h.settled)
  case h_5 number => exact h.stepNumber number
  case h_19 range => exact h.stepUnicodeRange range
  case h_20 =>
    -- The styles that are left are given to finished runs only.
    have live := h.live
    revert live plain
    cases style : m.style <;> simp_all [Style.isLive]
  all_goals
    rename_i style
    first
      | exact h.leave
      | exact comment (by rw [style]; rfl) (by simp [style])
      | exact lineComment (by rw [style]; rfl) (by simp [style])
      | exact run (by rw [style]; rfl) (by rw [style]; rfl)
      | exact h.stepQuoted (by rw [style]; rfl)

/-- One character is looked at. An escape sequence ends in front of what no longer belongs to it,
and the string goes on. -/
theorem Ready.look (h : Ready seen m) : Looked seen c rest (m.look o c rest) := by
  unfold Machine.look
  refine iteInduction (fun escape => ?_) fun plain => h.stepRun plain
  have counted := h.count fun context => context.escape.digitsLeft - 1
  have quoted := h.escape escape
  refine iteInduction (fun _ => ?_) fun goesOn => ?_
  · refine (counted.restart quoted (c :: rest)).stepRun ?_
    intro same
    rw [show m.context.escape.outer = .escapeChar from same] at quoted
    exact Bool.noConfusion quoted
  · have digit : isHexDigit c = true := by simpa using (not_or.mp goesOn).2
    refine counted.stay (fun name => ?_) fun breaks => ?_
    · simp [Machine.update, escape] at name
    · simp [isLineBreak_eq_false digit rfl rfl] at breaks

end Looking

end Machine

end CssHighlight
