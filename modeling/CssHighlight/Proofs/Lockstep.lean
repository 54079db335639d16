import CssHighlight.Proofs.Parallel

/-!
# Scans in lockstep

Machines of parallel scans stay so when each takes its next character. The texts agree in all that
the rules ask of characters, and the options in all that decides which rule applies; a keyword list
is asked only for the style in which a run ends.
-/
namespace CssHighlight

theorem caseBlind_leadsInterpolation (dialect : Dialect) :
    CaseBlind (leadsInterpolation dialect) := by
  cases dialect <;> exact caseBlind_of_capitals (by decide)

theorem isNameStart_of_isAlpha {c : Char} (letter : c.isAlpha = true) : isNameStart c = true := by
  simp only [isNameStart, Bool.or_eq_true, Bool.and_eq_true, decide_eq_true_eq, Char.le_def]
  rcases Bool.or_eq_true _ _ ▸ letter with upper | lower
  · exact .inl (.inl (.inr (of_decide_eq_true upper)))
  · obtain ⟨above, below⟩ := Bool.and_eq_true_iff.mp lower
    exact .inl (.inl (.inl ⟨of_decide_eq_true above, of_decide_eq_true below⟩))

theorem SameLetter.opensUrl_eq {next next' : Option Char} (same : SameLetter next next')
    (name : Option String) (dialect : Dialect) :
    opensUrl name next dialect = opensUrl name next' dialect := by
  simp only [opensUrl, bne, same.beq_eq (q := '\'') rfl, same.beq_eq (q := '"') rfl,
    same.beq_eq (q := ')') rfl, same.beq_eq (q := '$') rfl]

namespace Machine

namespace Parallel

variable {o o' : ScanOptions} {whole text text' rest rest' : List Char} {c c' : Char}
  {m m' : Machine}

/-- Whether an arithmetic sign belongs to a calculation is a matter of the keyword lists. -/
theorem sign (h : Parallel o o' whole text text' m m') (operator : m.style = .operator)
    (operator' : m'.style = .operator) :
    Parallel o o' whole text text'
      (if m.context.joinsOperands then m.restyle .operatorInCalc else m)
      (if m'.context.joinsOperands then m'.restyle .operatorInCalc else m') := by
  by_cases keywords : o.keywords = o'.keywords
  · rw [h.context.joinsOperands_eq keywords]
    split
    · exact { h with
        style := .inl rfl
        atRule := by rintro ⟨⟩ }
    · exact h
  · split <;> split
    all_goals exact { h with
      style := .inr ⟨keywords, by simp [restyle, operator, Style.isSign],
        by simp [restyle, operator', Style.isSign]⟩
      atRule := by simp [restyle, operator] }

/-- A brace opens an interpolation in both scans or in neither, and then both dialects are Less or
neither is. -/
theorem leads_eq (akin : o.Akin o' whole) (h : Parallel o o' whole ('{' :: rest) text' m m') :
    m.previous.any (leadsInterpolation o.dialect) =
        m'.previous.any (leadsInterpolation o'.dialect) ∧
      (m.previous.any (leadsInterpolation o.dialect) = true →
        (o.dialect = .less ↔ o'.dialect = .less)) := by
  rw [← h.previous.any_eq (caseBlind_leadsInterpolation o'.dialect)]
  cases previous : m.previous with
  | none => exact ⟨rfl, by rintro ⟨⟩⟩
  | some x =>
    have pair : [x, '{'] <:+: whole :=
      (List.prefix_append [x, '{'] rest).isInfix.trans (h.behind x previous).isInfix
    exact ⟨akin.dialects.leads_eq pair, akin.dialects.less_of_leads pair⟩

/-- Punctuation changes the nesting of both scans alike. -/
theorem punctuate (akin : o.Akin o' whole) (h : Parallel o o' whole (c :: rest) text' m m')
    (operator : m.style = .operator) (operator' : m'.style = .operator) :
    Parallel o o' whole (c :: rest) text' (m.punctuate o c) (m'.punctuate o' c) := by
  have context := h.context
  have sign := h.sign operator operator'
  unfold Machine.punctuate
  rw [← context.interpolation, ← context.parenDepth, ← context.isProperty_eq,
    ← context.inBrackets]
  split
  -- A brace opens an interpolation in both scans or in neither.
  · rw [← (h.leads_eq akin).1]
    split
    next leads =>
      exact h.update { context.unfold with
        interpolation := rfl
        less := fun _ => (h.leads_eq akin).2 leads
        resumes := by rintro ⟨⟩ }
    · exact h.update context.unfold.newBlock
  · split
    next style open_ =>
      have other : style ≠ .atRule := fun same => context.resumes (same ▸ open_)
      refine thenStart (h.update ?_) other
      exact { context.refold with
        interpolation := rfl
        less := by rintro ⟨⟩
        resumes := by rintro ⟨⟩ }
    · exact h.update context.refold.newBlock
  -- Brackets and parentheses.
  · exact h.update { context.unfold with inBrackets := rfl }
  · exact h.update { context.refold with inBrackets := rfl }
  · exact h.update context.unfold.enterParen.enterMath
  · exact h.update context.refold.leaveParen
  -- The colon and the semicolon of a declaration.
  · split
    · exact h.update { context with inValue := rfl }
    · exact h
  · split
    · exact h.update { context with inValue := rfl }
    · exact h
  -- Arithmetic signs, and all other marks.
  · exact sign
  · exact sign
  · exact sign
  · exact sign
  · exact h

theorem startsNumber_eq (same : c.toLower = c'.toLower) {next next' : Option Char}
    (letter : SameLetter next next') : startsNumber c next = startsNumber c' next' := by
  simp only [startsNumber, caseBlind_isDigit.eq same, letter.any_eq caseBlind_isDigit,
    (caseBlind_beq (x := '.') rfl).eq same]

/-- A name, or what leads one, starts in both scans or in neither. -/
theorem startsRun_eq (akin : o.Akin o' whole)
    (h : Parallel o o' whole (c :: rest) (c' :: rest') m m') :
    startsRun o.dialect c rest.head? = startsRun o'.dialect c' rest'.head? := by
  have same := h.ahead.first
  rw [akin.dialects.startsRun_eq h.inside]
  simp only [startsRun, caseBlind_isNameStart.eq same, (caseBlind_beq (x := '-') rfl).eq same,
    (caseBlind_beq (x := '@') rfl).eq same, (caseBlind_beq (x := '$') rfl).eq same,
    h.ahead.behind.head?.any_eq caseBlind_isAfterLeader]

theorem startToken (akin : o.Akin o' whole)
    (h : Parallel o o' whole (c :: rest) (c' :: rest') m m') :
    Parallel o o' whole (c :: rest) (c' :: rest') (m.startToken o c rest)
      (m'.startToken o' c' rest') := by
  have context := h.context
  have same := h.ahead.first
  have next := h.ahead.behind.head?
  have third := h.ahead.behind.tail.head?
  have mark {x : Char} (other : x.isAlpha = false) : c = x ↔ c' = x := toLower_eq_iff same other
  have plain {style : Style} (other : style ≠ .atRule) :
      Parallel o o' whole (c :: rest) (c' :: rest') (m.start style (c :: rest))
        (m'.start style (c' :: rest')) := h.start fun same => absurd same other
  simp only [Machine.startToken]
  -- Comments of both kinds.
  refine ite_rel (and_congr (mark rfl) (next.eq_some_iff rfl)) (fun _ => ?_) fun _ => ?_
  · have style := or_congr (third.eq_some_iff (q := '!') rfl) (third.eq_some_iff (q := '*') rfl)
    simp only [style]
    refine Parallel.hold ((h.update context.unfold).start ?_) 1
    split <;> rintro ⟨⟩
  refine ite_rel (and_congr (mark rfl) (next.eq_some_iff rfl)) (fun _ => ?_) fun _ => ?_
  · have style := or_congr (third.eq_some_iff (q := '!') rfl) (third.eq_some_iff (q := '/') rfl)
    simp only [style]
    refine Parallel.hold (h.start ?_) 1
    split <;> rintro ⟨⟩
  -- Strings, the delimiters of Html comments, and numbers.
  refine ite_rel (mark rfl) (fun _ => plain (by decide)) fun _ => ?_
  refine ite_rel (mark rfl) (fun _ => plain (by decide)) fun _ => ?_
  refine ite_rel ?_ (fun _ => (plain (by decide)).hold 3) fun _ => ?_
  · rw [h.ahead.isPrefixOf_eq rfl]
  refine ite_rel ?_ (fun _ => (plain (by decide)).hold 2) fun _ => ?_
  · rw [h.ahead.isPrefixOf_eq rfl]
  refine ite_rel ?_ (fun _ => plain (by decide)) fun _ => ?_
  · rw [startsNumber_eq same next, mark (x := '#') rfl, context.expectsColour_eq,
      next.any_eq caseBlind_isHexDigit]
  -- Unicode ranges.
  have range : c = 'u' ∨ c = 'U' ↔ c' = 'u' ∨ c' = 'U' := by
    have blind : CaseBlind fun x => x == 'u' || x == 'U' := caseBlind_of_capitals (by decide)
    simpa using Bool.eq_iff_iff.mp (blind.eq same)
  refine ite_rel ?_ (fun _ => ?_) fun _ => ?_
  · rw [next.eq_some_iff rfl, range, context.inValue, context.lastChar.eq_some_iff (q := ':') rfl,
      context.lastChar.eq_some_iff (q := ',') rfl, third.any_eq caseBlind_isRangeChar]
  · refine Parallel.hold ((h.update ?_).start (by rintro ⟨⟩)) 1
    exact { context with escape := by simp only [context.escape] }
  -- Names, which remember what stands before them.
  refine ite_rel (by rw [h.startsRun_eq akin]) (fun _ => ?_) fun name => ?_
  · have at_ := mark (x := '@') rfl
    have dollar := mark (x := '$') rfl
    simp only [← at_, ← dollar]
    refine Parallel.start (h.update ?_) ?_
    · exact { context with
        before := context.lastChar
        before_mem := context.lastChar_mem }
    · intro rule
      refine akin.dialects.ats ?_
      split at rule
      next first => exact first ▸ h.inside.subset List.mem_cons_self
      next => split at rule <;> cases rule
  -- Pseudo-elements, pseudo-classes, and all other punctuation.
  refine ite_rel ?_ (fun _ => (plain (by decide)).hold 2) fun _ => ?_
  · rw [mark rfl, next.eq_some_iff rfl, third.any_eq caseBlind_isAfterLeader]
  refine ite_rel ?_ (fun _ => (plain (by decide)).hold 1) fun _ => ?_
  · rw [mark rfl, context.isProperty_eq, next.any_eq caseBlind_isAfterLeader]
  refine ite_rel (by rw [caseBlind_isGraphic.eq same]) (fun _ => ?_) fun _ => h
  -- A letter would have started a name.
  have other : c.isAlpha = false := by
    refine Bool.eq_false_iff.mpr fun letter => name ?_
    simp only [startsRun, isNameStart_of_isAlpha letter, Bool.true_or]
  obtain rfl : c' = c := (mark other).mp rfl
  exact (plain (by decide)).punctuate akin rfl rfl

theorem leave (akin : o.Akin o' whole)
    (h : Parallel o o' whole (c :: rest) (c' :: rest') m m') :
    Parallel o o' whole (c :: rest) (c' :: rest') (m.leave o c rest) (m'.leave o' c' rest') :=
  (h.start (by rintro ⟨⟩)).startToken akin

theorem leaveRun (akin : o.Akin o' whole)
    (h : Parallel o o' whole (c :: rest) (c' :: rest') m m') :
    Parallel o o' whole (c :: rest) (c' :: rest') (m.leaveRun o c rest)
      (m'.leaveRun o' c' rest') :=
  (h.update { h.context with lastStyle := h.shade_style }).leave akin

end Parallel

/-! ### Ends of names -/

/-- Final styles of one family for a run, and contexts that run on in parallel. -/
structure SameEnd (o o' : ScanOptions) (whole : List Char) (x x' : Style × Context) : Prop where
  style : x.1.shade o o' = x'.1.shade o o'
  context : Context.Parallel o o' whole x.2 x'.2

section Ends

variable {o o' : ScanOptions} {whole : List Char} {c c' : Char} {next next' : Option Char}
  {x x' : Context}

theorem classifyName_parallel (akin : o.Akin o' whole) (h : Context.Parallel o o' whole x x')
    (same : c.toLower = c'.toLower) (letter : SameLetter next next') (name : Option String) :
    SameEnd o o' whole (classifyName name ⟨some c, next, o.dialect, o.keywords⟩ x)
      (classifyName name ⟨some c', next', o'.dialect, o'.keywords⟩ x') := by
  have before {q : Char} (mark : q.isAlpha = false) : x.before = some q ↔ x'.before = some q :=
    h.before.eq_some_iff mark
  have colon : next = some ':' ↔ next' = some ':' := letter.eq_some_iff rfl
  have paren : next = some '(' ↔ next' = some '(' := letter.eq_some_iff rfl
  have stays (style : Style) : SameEnd o o' whole (style, x) (style, x') := ⟨rfl, h⟩
  unfold classifyName
  -- A function may be a math function in one scan and not in the other.
  refine ite_rel ?_ (fun _ => ⟨rfl, ?_⟩) fun _ => ?_
  · simpa using toLower_eq_iff (x := '(') same rfl
  · by_cases keywords : o.keywords = o'.keywords
    · simp only [keywords]
      split
      · exact { h with mathPending := fun _ => rfl }
      · exact h
    · split <;> split
      all_goals exact { h with mathPending := fun same => absurd same keywords }
  refine ite_rel (by rw [before rfl]) (fun _ => stays _) fun _ => ?_
  refine ite_rel (by rw [h.interpolation]) (fun inside => ?_) fun _ => ?_
  · have style : (o.dialect = .less ∧ x.before = some '{') ↔
        (o'.dialect = .less ∧ x'.before = some '{') := by rw [h.less inside, before rfl]
    simp only [style]
    exact stays _
  refine ite_rel (by rw [colon, h.parenDepth]) (fun _ => stays _) fun _ => ?_
  refine ite_rel ?_ (fun _ => stays _) fun _ => ?_
  · rw [before (q := ':') rfl, before (q := '=') rfl, h.parenDepth, h.inValue]
  refine ite_rel (by rw [h.inValue]) (fun _ => stays _) fun _ => ?_
  refine ite_rel (by rw [h.inBrackets]) (fun _ => stays _) fun _ => ?_
  refine ite_rel (before rfl) (fun _ => stays _) fun _ => ?_
  refine ite_rel (before rfl) (fun _ => stays _) fun _ => ?_
  refine ite_rel ?_ (fun _ => stays _) fun _ => ?_
  · rw [← before (q := '%') rfl]
    exact and_congr_right fun percent => akin.dialects.placeholders (h.before_mem _ percent)
  -- A declaration's name may be known in one scan and unknown in the other.
  refine ite_rel ?_ (fun _ => ⟨?_, { h with inValue := rfl }⟩) fun _ => ?_
  · rw [colon, before (q := ';') rfl, before (q := '{') rfl]
  · refine Style.shade_eq_of_family ?_ fun keywords => by simp only [keywords]
    dsimp only
    split <;> split <;> rfl
  refine ite_rel ?_ (fun _ => stays _) fun _ => stays _
  rw [h.parenDepth, h.selectorDepth, ne_eq, ne_eq, paren]

theorem classifyRun_parallel (akin : o.Akin o' whole) (h : Context.Parallel o o' whole x x')
    (same : c.toLower = c'.toLower) (letter : SameLetter next next') (style : Style)
    (name : Option String) :
    SameEnd o o' whole (classifyRun style name ⟨some c, next, o.dialect, o.keywords⟩ x)
      (classifyRun style name ⟨some c', next', o'.dialect, o'.keywords⟩ x') := by
  unfold classifyRun
  split
  · exact classifyName_parallel akin h same letter name
  · refine ⟨Style.shade_eq_of_family ?_ fun keywords => ?_, h⟩
    · simp only [classifyAtRule]
      split <;> split <;> rfl
    · simp only [classifyAtRule, keywords, h.inValue]
  -- The lists of pseudo-classes are the same, so that both scans enter a selector list.
  · simp only [classifyPseudoClass, akin.pseudoClass]
    refine ite_rel Iff.rfl (fun _ => ⟨rfl, ?_⟩) fun _ => ⟨rfl, h⟩
    refine ite_rel ?_ (fun _ => ?_) fun _ => h
    · simp only [Option.some.injEq, toLower_eq_iff (x := '(') same rfl]
    · exact { h with selectorDepth := by simp only [h.selectorDepth] }
  · refine ⟨Style.shade_eq_of_family ?_ fun keywords => ?_, h⟩
    · simp only [classifyPseudoElement]
      split <;> split <;> rfl
    · simp only [keywords]
  · exact ⟨rfl, h⟩

end Ends

namespace Parallel

variable {o o' : ScanOptions} {whole text text' rest rest' : List Char} {c c' : Char}
  {m m' : Machine}

theorem runName_eq (h : Parallel o o' whole text text' m m') : m.runName = m'.runName := by
  simp only [runName, h.runLength, (h.runText.take _).lowerChars_eq]

theorem isClassified_eq (h : Parallel o o' whole text text' m m') :
    isClassified o.dialect m.style = isClassified o'.dialect m.style := by
  cases style : m.style with
  | atRule =>
    simp only [isClassified]
    rw [Bool.eq_iff_iff, beq_iff_eq, beq_iff_eq, h.atRule style]
  | _ => rfl

/-- A run that ends in styles of one family leaves the scans in parallel. -/
theorem restyle_leaveRun (akin : o.Akin o' whole)
    (h : Parallel o o' whole (c :: rest) (c' :: rest') m m') {x x' : Style × Context}
    (ends : SameEnd o o' whole x x') :
    Parallel o o' whole (c :: rest) (c' :: rest')
      (({ m with context := x.2 }.restyle x.1).leaveRun o c rest)
      (({ m' with context := x'.2 }.restyle x'.1).leaveRun o' c' rest') := by
  refine startToken akin ?_
  exact { h with
    style := .inl rfl
    atRule := by rintro ⟨⟩
    runText := h.ahead
    runLength := rfl
    context := { ends.context with lastStyle := ends.style }
    painted := by
      simp only [Machine.start, Machine.update, Machine.restyle, List.map_append,
        List.map_replicate, h.runLength, ends.style, h.painted] }

/-- What is read behind a name is the same letter or mark in both texts. -/
theorem nextSolid_parallel (h : Parallel o o' whole (c :: rest) (c' :: rest') m m')
    (style : Style) :
    SameLetter
        (if style = .identifier then nextSolid (if c = '(' then rest else c :: rest) else none)
        (if style = .identifier then nextSolid (if c' = '(' then rest' else c' :: rest')
          else none) ∧
      ∀ x, (if style = .identifier then nextSolid (if c = '(' then rest else c :: rest)
        else none) = some x → x ∈ whole := by
  have blind : CaseBlind fun x => !isSeparator x := fun x => by
    simp only [caseBlind_isSeparator x]
  split
  · constructor
    · have texts := ite_rel (r := SameLetters) (toLower_eq_iff (x := '(') h.ahead.first rfl)
        (fun _ => h.ahead.behind) fun _ => h.ahead
      exact texts.find? blind
    · intro x found
      have member := List.mem_of_find?_eq_some found
      refine h.inside.subset ?_
      split at member
      · exact List.mem_cons_of_mem c member
      · exact member
  · exact ⟨.refl none, by rintro _ ⟨⟩⟩

theorem closeRun (akin : o.Akin o' whole)
    (h : Parallel o o' whole (c :: rest) (c' :: rest') m m') (same : m.style = m'.style) :
    Parallel o o' whole (c :: rest) (c' :: rest') (m.closeRun o c rest)
      (m'.closeRun o' c' rest') := by
  obtain ⟨letter, inside⟩ := h.nextSolid_parallel m.style
  unfold Machine.closeRun
  rw [← same, ← h.isClassified_eq, ← h.runName_eq]
  refine ite_rel Iff.rfl (fun _ => ?_) fun _ => h.leaveRun akin
  refine ite_rel ?_ (fun _ => ?_) fun _ => ?_
  -- Both or neither of the parentheses open a bare address.
  · rw [akin.dialects.opensUrl_eq inside, letter.opensUrl_eq,
      toLower_eq_iff (x := '(') h.ahead.first rfl]
  · exact Parallel.thenStart ((h.update h.context.unfold.enterParen).start (by rintro ⟨⟩))
      (by decide)
  · have ends := classifyRun_parallel akin h.context h.ahead.first letter m.style m.runName
    exact h.restyle_leaveRun akin ends

theorem closingQuote_eq (same : c.toLower = c'.toLower) (style : Style) :
    closingQuote style = some c ↔ closingQuote style = some c' := by
  unfold closingQuote
  split
  · simpa [eq_comm] using toLower_eq_iff (x := '\'') same rfl
  · simpa [eq_comm] using toLower_eq_iff (x := '"') same rfl
  · simp

/-- Inside strings and bare addresses. -/
theorem stepQuoted (akin : o.Akin o' whole)
    (h : Parallel o o' whole (c :: rest) (c' :: rest') m m') (same : m.style = m'.style)
    (other : m.style ≠ .atRule) :
    Parallel o o' whole (c :: rest) (c' :: rest') (m.stepQuoted o c rest)
      (m'.stepQuoted o' c' rest') := by
  have first := h.ahead.first
  have next := h.ahead.behind.head?
  simp only [Machine.stepQuoted]
  rw [← same, ← next.any_eq caseBlind_isLineBreak, ← next.any_eq caseBlind_isHexDigit]
  -- An escape sequence keeps the style of the string for its end.
  refine ite_rel (toLower_eq_iff first rfl) (fun _ => ?_) fun _ => ?_
  · refine ite_rel Iff.rfl (fun _ => h) fun _ => ?_
    refine Parallel.hold ((h.update ?_).start (by rintro ⟨⟩)) 1
    exact { h.context with
      escape := rfl
      outer := other }
  refine ite_rel ?_ (fun _ => h.leave akin) fun _ => ?_
  · rw [toLower_eq_iff (x := ')') first rfl]
  refine ite_rel (closingQuote_eq first m.style) (fun _ => h.thenStart (by decide)) fun _ => ?_
  -- So does an interpolation, which opens in both scans or in neither.
  have pair (brace : rest.head? = some '{') : [c, '{'] <:+: whole := by
    cases rest with
    | nil => cases brace
    | cons x rest =>
      obtain rfl := Option.some.inj brace
      exact (List.prefix_append [c, '{'] rest).isInfix.trans h.inside.isInfix
  refine ite_rel ?_ (fun opens => ?_) fun _ => h
  · rw [← next.eq_some_iff (q := '{') rfl]
    refine and_congr_right fun brace => ?_
    rw [akin.dialects.leads_eq (pair brace), (caseBlind_leadsInterpolation o'.dialect).eq first]
  · refine Parallel.hold ((h.update ?_).start (by rintro ⟨⟩)) 1
    exact { h.context.unfold with
      interpolation := rfl
      less := fun _ => akin.dialects.less_of_leads (pair opens.1) opens.2
      resumes := fun same => other (Option.some.inj same) }

theorem continuesNumber_eq (h : Parallel o o' whole (c :: rest) (c' :: rest') m m') :
    m.continuesNumber c rest = m'.continuesNumber c' rest' := by
  have first := h.ahead.first
  have next := h.ahead.behind.head?
  have third := h.ahead.behind.tail.head?
  -- Both cases of the letter stand for an exponent.
  have blind : CaseBlind fun x => x == 'e' || x == 'E' := caseBlind_of_capitals (by decide)
  have exponent : c = 'e' ∨ c = 'E' ↔ c' = 'e' ∨ c' = 'E' := by
    simpa using Bool.eq_iff_iff.mp (blind.eq first)
  have behind : (m.previous == some 'e' || m.previous == some 'E') =
      (m'.previous == some 'e' || m'.previous == some 'E') := by
    have asked (x : Option Char) :
        (x == some 'e' || x == some 'E') = x.any fun x => x == 'e' || x == 'E' := by
      cases x <;> simp
    rw [asked, asked, h.previous.any_eq blind]
  simp only [continuesNumber, h.runText.head?.eq_some_iff (q := '#') rfl,
    caseBlind_isNameChar.eq first, caseBlind_isDigit.eq first, toLower_eq_iff (x := '.') first rfl,
    bne, h.previous.beq_eq (q := '.') rfl, next.any_eq caseBlind_isDigit, exponent,
    next.beq_eq (q := '+') rfl, next.beq_eq (q := '-') rfl, third.any_eq caseBlind_isDigit,
    toLower_eq_iff (x := '+') first rfl, toLower_eq_iff (x := '-') first rfl, behind]

/-- One digit less is left of an escape sequence or a unicode range. -/
theorem countDown (h : Parallel o o' whole text text' m m') :
    Parallel o o' whole text text'
      (m.update fun x =>
        { x with escape := { x.escape with digitsLeft := x.escape.digitsLeft - 1 } })
      (m'.update fun x =>
        { x with escape := { x.escape with digitsLeft := x.escape.digitsLeft - 1 } }) :=
  h.update { h.context with escape := by simp only [h.context.escape] }

/-- Inside a unicode range. -/
theorem stepUnicodeRange (akin : o.Akin o' whole)
    (h : Parallel o o' whole (c :: rest) (c' :: rest') m m') :
    Parallel o o' whole (c :: rest) (c' :: rest') (m.stepUnicodeRange o c rest)
      (m'.stepUnicodeRange o' c' rest') := by
  have first := h.ahead.first
  unfold Machine.stepUnicodeRange
  refine ite_rel ?_ (fun _ => h.update ?_) fun _ => ?_
  · rw [toLower_eq_iff (x := '-') first rfl, h.ahead.behind.head?.any_eq caseBlind_isRangeChar]
  · exact { h.context with escape := by simp only [h.context.escape] }
  have counted := h.countDown
  refine ite_rel ?_ (fun _ => counted.leave akin) fun _ => counted
  simp only [Machine.update, h.context.escape, caseBlind_isRangeChar.eq first]

theorem stepRun (akin : o.Akin o' whole)
    (h : Parallel o o' whole (c :: rest) (c' :: rest') m m') :
    Parallel o o' whole (c :: rest) (c' :: rest') (m.stepRun o c rest)
      (m'.stepRun o' c' rest') := by
  have first := h.ahead.first
  have next := h.ahead.behind.head?
  rcases h.style with same | ⟨-, sign, sign'⟩
  · have comment : Parallel o o' whole (c :: rest) (c' :: rest')
        (if c = '*' ∧ rest.head? = some '/' then
          ((m.update Context.refold).hold 1).thenStart .default else m)
        (if c' = '*' ∧ rest'.head? = some '/' then
          ((m'.update Context.refold).hold 1).thenStart .default else m') :=
      ite_rel (and_congr (toLower_eq_iff first rfl) (next.eq_some_iff rfl))
        (fun _ => ((h.update h.context.refold).hold 1).thenStart (by decide)) fun _ => h
    have lineComment : Parallel o o' whole (c :: rest) (c' :: rest')
        (if m.atLineStart then m.leave o c rest else m)
        (if m'.atLineStart then m'.leave o' c' rest' else m') :=
      ite_rel (by rw [h.atLineStart]) (fun _ => h.leave akin) fun _ => h
    have name : Parallel o o' whole (c :: rest) (c' :: rest')
        (if isRunChar c then m else m.closeRun o c rest)
        (if isRunChar c' then m' else m'.closeRun o' c' rest') :=
      ite_rel (by rw [caseBlind_isRunChar.eq first]) (fun _ => h) fun _ => h.closeRun akin same
    unfold Machine.stepRun
    rw [← same]
    split
    case h_1 => exact h.startToken akin
    case h_5 =>
      have dimension : Parallel o o' whole (c :: rest) (c' :: rest') (m.restyle .dimension)
          (m'.restyle .dimension) :=
        { h with
          style := .inl rfl
          atRule := by rintro ⟨⟩ }
      have starts : startsName c rest.head? = startsName c' rest'.head? := by
        simp only [startsName, caseBlind_isNameStart.eq first,
          (caseBlind_beq (x := '-') rfl).eq first, next.any_eq caseBlind_isAfterLeader]
      refine ite_rel (by rw [h.continuesNumber_eq]) (fun _ => h) fun _ => ?_
      refine ite_rel (by rw [starts]) (fun _ => dimension) fun _ => ?_
      exact ite_rel (toLower_eq_iff first rfl) (fun _ => h.thenStart (by decide)) fun _ =>
        h.leave akin
    case h_19 => exact h.stepUnicodeRange akin
    case h_20 => exact h
    all_goals
      rename_i style
      first
        | exact h.leave akin
        | exact comment
        | exact lineComment
        | exact name
        | exact h.stepQuoted akin same (by simp [style])
  -- Where the styles differ, both scans stand behind a sign.
  · have leaves {o : ScanOptions} {c : Char} {rest : List Char} {m : Machine}
        (sign : m.style.isSign = true) : m.stepRun o c rest = m.leave o c rest := by
      unfold Machine.stepRun
      revert sign
      cases m.style <;> simp [Style.isSign]
    rw [leaves sign, leaves sign']
    exact h.leave akin

theorem look (akin : o.Akin o' whole) (h : Parallel o o' whole (c :: rest) (c' :: rest') m m') :
    Parallel o o' whole (c :: rest) (c' :: rest') (m.look o c rest) (m'.look o' c' rest') := by
  have first := h.ahead.first
  have counted := h.countDown
  have same : m.style = .escapeChar ↔ m'.style = .escapeChar := by
    rcases h.style with same | ⟨-, sign, sign'⟩
    · rw [same]
    · revert sign sign'
      cases m.style <;> cases m'.style <;> simp [Style.isSign]
  unfold Machine.look
  refine ite_rel same (fun _ => ?_) fun _ => h.stepRun akin
  refine ite_rel ?_ (fun _ => ?_) fun _ => counted
  · simp only [Machine.update, h.context.escape, caseBlind_isHexDigit.eq first]
  -- The escape sequence is over, and the string around it reads the character.
  · have outer := congrArg Escape.outer h.context.escape
    have quoted : m.context.escape.outer = .atRule → (o.dialect = .less ↔ o'.dialect = .less) :=
      fun same => absurd same h.context.outer
    have resumed := counted.start quoted
    simp only [Machine.update, ← outer] at resumed ⊢
    exact resumed.stepRun akin

theorem release (h : Parallel o o' whole text text' m m') :
    Parallel o o' whole text text' (m.release text) (m'.release text') := by
  unfold Machine.release
  rw [← h.held, ← h.after]
  split
  next style _ waiting =>
    have other : style ≠ .atRule := fun same => h.waits (same ▸ waiting)
    exact { h.start fun same => absurd same other with
      after := rfl
      waits := by rintro ⟨⟩ }
  next => exact h

theorem take (h : Parallel o o' whole (c :: rest) (c' :: rest') m m') :
    Parallel o o' whole rest rest' (m.take o c rest) (m'.take o' c' rest') := by
  have ends : lastOfLine c rest = lastOfLine c' rest' := by
    have last : rest.isEmpty = rest'.isEmpty := by
      rw [Bool.eq_iff_iff, List.isEmpty_iff_length_eq_zero, List.isEmpty_iff_length_eq_zero,
        h.ahead.behind.length_eq]
    simp only [lastOfLine, h.ahead.endsLine_eq, last]
  have remembered := h.context.remember h.shade_style h.isSpace_eq h.ahead.first
    (h.inside.subset List.mem_cons_self)
  unfold Machine.take
  rw [← ends]
  refine release ?_
  exact { h with
    ahead := h.ahead.behind
    inside := (List.suffix_cons c rest).trans h.inside
    runLength := congrArg (· + 1) h.runLength
    previous := congrArg some h.ahead.first
    behind := by
      rintro _ ⟨⟩
      exact h.inside
    atLineStart := rfl
    context := by
      dsimp only
      split
      · exact remembered.endLine
      · exact remembered
    lines := by
      dsimp only
      split
      · rw [List.map_cons, List.map_cons, remembered.lineData_shade, h.lines]
      · exact h.lines }

/-- One step keeps the scans in parallel. -/
theorem step (akin : o.Akin o' whole) (h : Parallel o o' whole (c :: rest) (c' :: rest') m m') :
    Parallel o o' whole rest rest' (m.step o c rest) (m'.step o' c' rest') := by
  unfold Machine.step
  rw [← h.held]
  split
  · exact (h.look akin).take
  · refine take ?_
    exact { h with held := rfl }

/-- The scans stay in parallel however far they go. -/
theorem run (akin : o.Akin o' whole) (n : Nat) (h : Parallel o o' whole text text' m m') :
    Parallel o o' whole (text.drop n) (text'.drop n) (m.run o n text) (m'.run o' n text') := by
  induction n generalizing text text' m m' with
  | zero => exact h
  | succ n ih =>
    cases text with
    | nil =>
      obtain rfl := h.ahead.eq_nil
      exact h
    | cons c rest =>
      obtain ⟨c', rest', rfl⟩ := h.ahead.uncons
      exact ih (h.step akin)

end Parallel

end Machine

end CssHighlight
