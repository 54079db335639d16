import CssHighlight.Proofs.Alike

/-!
# Scans that go on alike

Alike machines that scan texts which look the same ahead stay alike, so that they finish the same
styles and lines.
-/
namespace CssHighlight

namespace Machine

/-- What surrounds a run of a style that ends in front of `c`. -/
def runEnd (o : ScanOptions) (style : Style) (c : Char) (rest : List Char) : RunEnd :=
  ⟨some c, if style = .identifier then nextSolid (if c = '(' then rest else c :: rest) else none,
    o.dialect, o.keywords⟩

section Sight

variable (o : ScanOptions) (c : Char) (rest : List Char) (c' : Char) (rest' : List Char)

/-- A name ends alike in front of two texts: both or neither open a bare address, and it stands
for the same. -/
structure SameNameEnd (m : Machine) : Prop where
  address : c = '(' → opensUrl m.runName (nextSolid rest) o.dialect =
    opensUrl m.runName (nextSolid rest') o.dialect
  name : c ≠ '(' →
    classifyName m.runName ⟨some c, nextSolid (c :: rest), o.dialect, o.keywords⟩ m.context =
      classifyName m.runName ⟨some c', nextSolid (c' :: rest'), o.dialect, o.keywords⟩ m.context

/-- What the run in progress asks of the text ahead is answered alike by two texts. -/
structure SameSight (m : Machine) : Prop where
  glance : Glance isDull (c :: rest) (c' :: rest')
  closes : (m.style.isBlockComment = true ∨
      m.style = .escapeChar ∧ m.context.escape.outer.isBlockComment = true) →
    c = '*' → (rest.head? = some '/' ↔ rest'.head? = some '/')
  name : m.style = .identifier → SameNameEnd o c rest c' rest' m

/-- The run in progress goes on alike in two machines, or it ends alike and both look for a token
behind it; the first machine was to start the style `after`, if any, behind `held` characters. -/
inductive Going (after : Option Style) (held : Nat) (styles : List Style) (lines : List LineData) :
    Machine → Machine → Prop
  | stays {m m' : Machine} (alike : Alike o (c :: rest) (c' :: rest') styles lines m m') :
      Going after held styles lines m m'
  | token {m m' : Machine} (alike : Alike o (c :: rest) (c' :: rest') styles lines m m')
      (blank : m.style = .default) (waits : m.after = after) (free : m.held = held) :
      Going after held styles lines (m.startToken o c rest) (m'.startToken o c' rest')

end Sight

/-! ### Dull characters end what they can -/

/-- Strings and bare addresses go on at a dull character. -/
theorem stepQuoted_dull (o : ScanOptions) {c : Char} (dull : isDull c = true)
    (rest : List Char) (m : Machine) : m.stepQuoted o c rest = m := by
  have quote : closingQuote m.style ≠ some c := by
    unfold closingQuote
    split <;> rintro ⟨⟩ <;> exact Bool.noConfusion dull
  have backslash : c ≠ '\\' := by rintro rfl; exact Bool.noConfusion dull
  have paren : c ≠ ')' := by rintro rfl; exact Bool.noConfusion dull
  simp [stepQuoted, backslash, paren, quote, leadsInterpolation_dull o.dialect dull]

theorem stepQuoted_lineBreak (o : ScanOptions) {c : Char} (breaks : isLineBreak c = true)
    (rest : List Char) (m : Machine) : m.stepQuoted o c rest = m :=
  stepQuoted_dull o (isDull_of_isLineBreak breaks) rest m

theorem continuesNumber_dull {c : Char} (dull : isDull c = true) (rest : List Char) (m : Machine) :
    m.continuesNumber c rest = false := by
  rcases dull_cases dull with rfl | rfl | rfl | rfl | rfl | rfl | rfl <;>
    simp [continuesNumber, isDigit, isNameChar, isNameStart]

/-- No name starts at a dull character or goes on with one. -/
theorem startsName_dull {c : Char} (dull : isDull c = true) (next : Option Char) :
    startsName c next = false :=
  eq_false_of_isDull (p := fun c => startsName c next) (by simp [startsName, isNameStart]) dull

theorem isRunChar_dull {c : Char} (dull : isDull c = true) : isRunChar c = false :=
  eq_false_of_isDull (p := isRunChar) (by decide) dull

namespace Alike

variable {o : ScanOptions} {c c' : Char} {rest rest' : List Char} {styles : List Style}
  {lines : List LineData} {m m' : Machine}

theorem startToken (h : Alike o (c :: rest) (c' :: rest') styles lines m m')
    (glance : Glance isDull (c :: rest) (c' :: rest')) (slash : SameSlash c rest c' rest') :
    Alike o (c :: rest) (c' :: rest') styles lines (m.startToken o c rest)
      (m'.startToken o c' rest') := by
  obtain ⟨rfl, behind⟩ | ⟨blank, blank'⟩ : c = c' ∧ Glance isDull rest rest' ∨
      isSeparator c = true ∧ isSeparator c' = true := by
    rcases glance.uncons with same | dull
    · exact .inl same
    by_cases opens : c = '/' ∨ c' = '/'
    · exact .inl (slash.both opens)
    · obtain ⟨other, other'⟩ := not_or.mp opens
      exact .inr ⟨by simpa [isDull, other] using dull.left,
        by simpa [isDull, other'] using dull.right⟩
  -- No token starts at blanks.
  case inr => rwa [startToken_separator o blank, startToken_separator o blank']
  have context := h.context
  have next {x : Char} (bright : isDull x = false) :
      rest.head? = some x ↔ rest'.head? = some x := behind.next_iff bright
  have class_ {p : Char → Bool} (plain : ∀ {x : Char}, isDull x = true → p x = false) :
      rest.head?.any p = rest'.head?.any p := behind.any_eq plain
  -- The third character is read only behind a second one that is not dull, or behind a slash.
  have third {x : Char} (first : rest.head? = some x) (bright : isDull x = false) :
      Glance isDull rest.tail rest'.tail := behind.tail first bright
  have colour : expectsColour m.context = expectsColour m'.context := by
    simp only [expectsColour, context.inValue, context.selectorDepth, context.parenDepth]
  have whole (word : List Char) (bright : word.any isDull = false) :
      word.isPrefixOf (c :: rest) = word.isPrefixOf (c :: rest') :=
    (behind.cons c).isPrefixOf_eq word fun x member =>
      Bool.eq_false_iff.mpr (List.any_eq_false.mp bright x member)
  have digit : rest.head?.any isDigit = rest'.head?.any isDigit :=
    class_ (eq_false_of_isDull (by decide))
  have leader : rest.head?.any isAfterLeader = rest'.head?.any isAfterLeader :=
    class_ (eq_false_of_isDull (by decide))
  simp only [Machine.startToken]
  rw [← whole ['<', '!', '-', '-'] (by decide), ← whole ['-', '-', '>'] (by decide), ← colour,
    ← context.inValue, ← context.lastChar, ← context.lastStyle]
  -- Comments of both kinds.
  refine ite_rel (and_congr_right fun _ => next (by decide)) (fun opens => ?_) fun _ => ?_
  · have mark {x : Char} (bright : isDull x = false) :
        rest.tail.head? = some x ↔ rest'.tail.head? = some x :=
      (third opens.2 (by decide)).next_iff bright
    simp only [mark (x := '!') (by decide), mark (x := '*') (by decide)]
    refine Alike.hold (h.update_start ?_) 1
    split <;> exact context.unfold.enter rfl
  refine ite_rel (and_congr_right slash.next) (fun opens => ?_) fun _ => ?_
  · have marks := slash.third opens.1 opens.2
    simp only [marks '!' (by decide), marks '/' (by decide)]
    refine Alike.hold (h.start ?_) 1
    split <;> exact context.enter rfl
  -- Strings, the delimiters of Html comments, and numbers.
  refine ite_rel Iff.rfl (fun _ => h.start (context.enter rfl)) fun _ => ?_
  refine ite_rel Iff.rfl (fun _ => h.start (context.enter rfl)) fun _ => ?_
  refine ite_rel Iff.rfl (fun _ => Alike.hold (h.start (context.enter rfl)) 3) fun _ => ?_
  refine ite_rel Iff.rfl (fun _ => Alike.hold (h.start (context.enter rfl)) 2) fun _ => ?_
  have number : (startsNumber c rest.head? = true ∨ c = '#' ∧ expectsColour m.context = true ∧
        rest.head?.any isHexDigit = true) ↔
      (startsNumber c rest'.head? = true ∨ c = '#' ∧ expectsColour m.context = true ∧
        rest'.head?.any isHexDigit = true) := by
    have hexDigit : rest.head?.any isHexDigit = rest'.head?.any isHexDigit :=
      class_ (eq_false_of_isDull (by decide))
    rw [startsNumber, startsNumber, digit, hexDigit]
  refine ite_rel number (fun _ => h.start (context.enter rfl)) fun _ => ?_
  -- Unicode ranges, which count their digits.
  have range : (rest.head? = some '+' ∧ (c = 'u' ∨ c = 'U') ∧ m.context.inValue = true ∧
        (m.context.lastChar = some ':' ∨ m.context.lastChar = some ',') ∧
        rest.tail.head?.any isRangeChar = true) ↔
      (rest'.head? = some '+' ∧ (c = 'u' ∨ c = 'U') ∧ m.context.inValue = true ∧
        (m.context.lastChar = some ':' ∨ m.context.lastChar = some ',') ∧
        rest'.tail.head?.any isRangeChar = true) := by
    rw [← next (by decide)]
    refine and_congr_right fun plus => ?_
    rw [(third plus (by decide)).any_eq (eq_false_of_isDull (by decide))]
  refine ite_rel range (fun _ => ?_) fun _ => ?_
  · refine Alike.hold (h.update_start ?_) 1
    exact { context with
      before := fun name => Style.noConfusion name
      digitsLeft := fun _ => rfl
      outer := fun escape => Style.noConfusion escape }
  -- Names, which remember what stands before them.
  have run : startsRun o.dialect c rest.head? = true ↔
      startsRun o.dialect c rest'.head? = true := by
    rw [startsRun, startsRun, leader]
  refine ite_rel run (fun _ => h.update_start ?_) fun _ => ?_
  · have name : Context.Alike o .identifier { m.context with before := m.context.lastChar }
        { m'.context with before := m'.context.lastChar } :=
      { context with
        before := fun _ => context.lastChar
        digitsLeft := fun escape => by simp at escape
        outer := fun escape => Style.noConfusion escape }
    split
    · exact name.enter rfl
    · split
      · exact name.enter rfl
      · exact name
  -- Pseudo-elements, pseudo-classes, and all other punctuation.
  have element : (c = ':' ∧ rest.head? = some ':' ∧ rest.tail.head?.any isAfterLeader = true) ↔
      (c = ':' ∧ rest'.head? = some ':' ∧ rest'.tail.head?.any isAfterLeader = true) := by
    rw [← next (by decide)]
    refine and_congr_right fun _ => and_congr_right fun colon => ?_
    rw [(third colon (by decide)).any_eq (eq_false_of_isDull (by decide))]
  refine ite_rel element (fun _ => Alike.hold (h.start (context.enter rfl)) 2) fun _ => ?_
  refine ite_rel (by rw [leader]) (fun _ => Alike.hold (h.start (context.enter rfl)) 1) fun _ => ?_
  refine ite_rel Iff.rfl (fun _ => ?_) fun _ => h
  exact (h.start (context.enter rfl)).punctuate ⟨rfl, rfl, rfl, rfl⟩ c

theorem leave (h : Alike o (c :: rest) (c' :: rest') styles lines m m') :
    Going o c rest c' rest' m.after m.held styles lines (m.leave o c rest) (m'.leave o c' rest') :=
  .token (h.start (h.context.enter rfl)) rfl rfl rfl

theorem leaveRun (h : Alike o (c :: rest) (c' :: rest') styles lines m m') :
    Going o c rest c' rest' m.after m.held styles lines (m.leaveRun o c rest)
      (m'.leaveRun o c' rest') :=
  (h.update { h.context with lastStyle := h.style }).leave

end Alike

/-! ### Ends of names -/

theorem opensUrl_eq {next next' : Option Char} (same : SameMark addressMarks next next')
    (name : Option String) (dialect : Dialect) :
    opensUrl name next dialect = opensUrl name next' dialect := by
  have mark (q : Char) (member : q ∈ addressMarks) : (next == some q) = (next' == some q) :=
    Bool.eq_iff_iff.mpr (by simpa using same q member)
  simp only [opensUrl, bne, mark '\'' (by decide), mark '"' (by decide), mark ')' (by decide),
    mark '$' (by decide)]

/-- Of the next solid character behind a name that is no function only two questions are asked. -/
theorem classifyName_eq {e e' : RunEnd} (stop : e.stop ≠ some '(') (stop' : e'.stop ≠ some '(')
    (same : SameMark nameMarks e.next e'.next) (dialect : e.dialect = e'.dialect)
    (keywords : e.keywords = e'.keywords) (name : Option String) (context : Context) :
    classifyName name e context = classifyName name e' context := by
  simp only [classifyName, if_neg stop, if_neg stop', dialect, keywords,
    same ':' (by decide), same '(' (by decide), ne_eq]

theorem SameNameEnd.of_marks {o : ScanOptions} {c c' : Char} {rest rest' : List Char} {m : Machine}
    (stop : c = '(' ↔ c' = '(')
    (address : c = '(' → SameMark addressMarks (nextSolid rest) (nextSolid rest'))
    (name : c ≠ '(' → SameMark nameMarks (nextSolid (c :: rest)) (nextSolid (c' :: rest'))) :
    SameNameEnd o c rest c' rest' m where
  address := fun opens => opensUrl_eq (address opens) m.runName o.dialect
  name := fun other => by
    refine @classifyName_eq ⟨some c, nextSolid (c :: rest), o.dialect, o.keywords⟩
      ⟨some c', nextSolid (c' :: rest'), o.dialect, o.keywords⟩ ?_ ?_ (name other) rfl rfl
      m.runName m.context
    · simpa using other
    · simpa [← stop] using other

theorem SameNameEnd.of_solid {o : ScanOptions} {c : Char} {rest rest' : List Char} {m : Machine}
    (solid : SameSolid c rest rest') : SameNameEnd o c rest c rest' m := by
  refine .of_marks Iff.rfl (fun opens => ?_) fun other => ?_
  · rwa [SameSolid, if_pos opens] at solid
  · rwa [SameSolid, if_neg other] at solid

/-- Another run than a name only asks whether a parenthesis ends it. -/
theorem classifyRun_eq {style : Style} {name : Option String} {e e' : RunEnd} {context : Context}
    (stop : e.stop = some '(' ↔ e'.stop = some '(') (keywords : e.keywords = e'.keywords)
    (named : style = .identifier → classifyName name e context = classifyName name e' context) :
    classifyRun style name e context = classifyRun style name e' context := by
  unfold classifyRun
  split
  · exact named rfl
  · rw [keywords]
  · simp only [classifyPseudoClass, keywords, stop]
  · rw [keywords]
  · rfl

/-- The same style for a finished run, and contexts that are alike behind it. -/
def SameClass (o : ScanOptions) (x y : Style × Context) : Prop :=
  x.1 = y.1 ∧ Context.Alike o .default x.2 y.2

theorem classifyName_alike {o : ScanOptions} {context context' : Context}
    (h : Context.Alike o .identifier context context') (name : Option String) (e : RunEnd) :
    SameClass o (classifyName name e context) (classifyName name e context') := by
  have behind : Context.Alike o .default context context' := h.enter rfl
  have before := h.before rfl
  have stays (style : Style) : SameClass o (style, context) (style, context') := ⟨rfl, behind⟩
  simp only [classifyName]
  refine ite_rel Iff.rfl (fun _ => ⟨rfl, ?_⟩) fun _ => ?_
  · split
    · exact { behind with mathPending := rfl }
    · exact behind
  refine ite_rel (by rw [before]) (fun _ => stays _) fun _ => ?_
  refine ite_rel (by rw [h.interpolation]) (fun _ => ?_) fun _ => ?_
  · rw [before]
    exact stays _
  refine ite_rel (by rw [h.parenDepth]) (fun _ => stays _) fun _ => ?_
  refine ite_rel (by rw [before, h.parenDepth, h.inValue]) (fun _ => stays _) fun _ => ?_
  refine ite_rel (by rw [h.inValue]) (fun _ => stays _) fun _ => ?_
  refine ite_rel (by rw [h.inBrackets]) (fun _ => stays _) fun _ => ?_
  refine ite_rel (by rw [before]) (fun _ => stays _) fun _ => ?_
  refine ite_rel (by rw [before]) (fun _ => stays _) fun _ => ?_
  refine ite_rel (by rw [before]) (fun _ => stays _) fun _ => ?_
  refine ite_rel (by rw [before]) (fun _ => ⟨rfl, ?_⟩) fun _ => ?_
  · exact { behind with inValue := rfl }
  exact ite_rel (by rw [h.parenDepth, h.selectorDepth]) (fun _ => stays _) fun _ => stays _

theorem classifyRun_alike {o : ScanOptions} {style : Style} {context context' : Context}
    (h : Context.Alike o style context context') (name : Option String) (e : RunEnd) :
    SameClass o (classifyRun style name e context) (classifyRun style name e context') := by
  have behind : Context.Alike o .default context context' := h.enter rfl
  unfold classifyRun
  split
  · exact classifyName_alike h name e
  · exact ⟨by simp only [classifyAtRule, h.inValue], behind⟩
  · simp only [classifyPseudoClass]
    refine ite_rel Iff.rfl (fun _ => ⟨rfl, ?_⟩) fun _ => ⟨rfl, behind⟩
    split
    · exact { behind with selectorDepth := by simp only [h.selectorDepth] }
    · exact behind
  · exact ⟨rfl, behind⟩
  · exact ⟨rfl, behind⟩

namespace Alike

variable {o : ScanOptions} {c c' : Char} {rest rest' : List Char} {styles : List Style}
  {lines : List LineData} {m m' : Machine}

theorem runName_eq (h : Alike o (c :: rest) (c' :: rest') styles lines m m')
    (reads : m.style.readsRun = true) : m.runName = m'.runName := by
  obtain ⟨word, text, text', length, length'⟩ := h.run reads
  simp only [runName, text, text', length, length', List.take_left]

/-- A run that gets its final style ends alike, whatever the style. -/
theorem restyle_leaveRun (h : Alike o (c :: rest) (c' :: rest') styles lines m m')
    (reads : m.style.readsRun = true) {x x' : Style × Context} (same : SameClass o x x') :
    Going o c rest c' rest' m.after m.held styles lines
      (({ m with context := x.2 }.restyle x.1).leaveRun o c rest)
      (({ m' with context := x'.2 }.restyle x'.1).leaveRun o c' rest') := by
  obtain ⟨style, context⟩ := same
  obtain ⟨word, -, -, length, length'⟩ := h.run reads
  -- The runs have one length, so that the same number of styles changes.
  have latest := h.latest
  simp only [Machine.latest, length, length', h.style, List.append_assoc,
    List.append_cancel_left_eq] at latest
  refine .token ?_ rfl rfl rfl
  exact { h with
    style := rfl
    run := fun _ => ⟨[], rfl, rfl, rfl, rfl⟩
    context := { context with lastStyle := style }
    latest := by simp only [Machine.latest, Machine.start, Machine.update, Machine.restyle, length,
      length', latest, style, List.replicate_zero, List.nil_append, List.append_assoc] }

theorem closeRun (h : Alike o (c :: rest) (c' :: rest') styles lines m m')
    (glance : Glance isDull (c :: rest) (c' :: rest'))
    (name : m.style = .identifier → SameNameEnd o c rest c' rest' m) :
    Going o c rest c' rest' m.after m.held styles lines (m.closeRun o c rest)
      (m'.closeRun o c' rest') := by
  have stop : c = '(' ↔ c' = '(' := by
    simpa using glance.next_iff (x := '(') (by decide)
  unfold Machine.closeRun
  rw [← h.style]
  split
  next classified =>
    have reads : m.style.readsRun = true := by
      revert classified
      cases m.style <;> simp [isClassified, Style.readsRun]
    rw [← h.runName_eq reads]
    refine ite_rel ?_ (fun _ => ?_) fun _ => ?_
    -- Both or neither of the parentheses open a bare address.
    · refine and_congr_right fun identifier => ?_
      rw [if_pos identifier, if_pos identifier]
      by_cases opens : c = '('
      · rw [if_pos opens, if_pos (stop.mp opens), (name identifier).address opens, stop]
      · exact iff_of_false (fun both => opens both.1) fun both => opens (stop.mpr both.1)
    · exact .stays (thenStart (h.update_start (h.context.unfold.enterParen.enter rfl)) rfl)
    · -- What the run stands for depends neither on the text nor on the machine.
      have named (identifier : m.style = .identifier) :
          classifyName m.runName (runEnd o m.style c rest) m.context =
            classifyName m.runName (runEnd o m.style c' rest') m.context := by
        rw [runEnd, runEnd, if_pos identifier, if_pos identifier]
        by_cases opens : c = '('
        · simp only [classifyName, opens, stop.mp opens, if_true]
        · rw [if_neg opens, if_neg (opens ∘ stop.mpr)]
          exact (name identifier).name opens
      have same := @classifyRun_eq m.style m.runName (runEnd o m.style c rest)
        (runEnd o m.style c' rest') m.context (by simpa [runEnd] using stop) rfl named
      have found := classifyRun_alike h.context m.runName (runEnd o m.style c' rest')
      rw [← same] at found
      exact h.restyle_leaveRun reads found
  next => exact h.leaveRun

theorem stepQuoted (h : Alike o (c :: rest) (c' :: rest') styles lines m m')
    (glance : Glance isDull (c :: rest) (c' :: rest')) (plain : m.style.readsContext = false) :
    Going o c rest c' rest' m.after m.held styles lines (m.stepQuoted o c rest)
      (m'.stepQuoted o c' rest') := by
  rcases glance.uncons with ⟨rfl, behind⟩ | dull
  case inr =>
    rw [stepQuoted_dull o dull.left, stepQuoted_dull o dull.right]
    exact .stays h
  have digits : rest.head?.any isHexDigit = rest'.head?.any isHexDigit :=
    behind.any_eq (eq_false_of_isDull (by decide))
  simp only [Machine.stepQuoted]
  rw [← behind.breaks_eq, ← digits, ← h.style]
  -- An escape sequence keeps the style of the string for its end.
  refine ite_rel Iff.rfl (fun _ => ?_) fun _ => ?_
  · refine ite_rel Iff.rfl (fun _ => .stays h) fun _ => ?_
    refine .stays (hold (h.update_start ?_) 1)
    exact { h.context with
      before := fun name => Style.noConfusion name
      digitsLeft := fun _ => rfl
      outer := fun _ => ⟨rfl, plain⟩ }
  refine ite_rel Iff.rfl (fun _ => h.leave) fun _ => ?_
  refine ite_rel Iff.rfl (fun _ => .stays (h.thenStart rfl)) fun _ => ?_
  -- So does an interpolation.
  refine ite_rel (and_congr_left fun _ => behind.next_iff (by decide)) (fun _ => ?_)
    fun _ => .stays h
  refine .stays (hold (h.update_start ?_) 1)
  have opened := h.context.unfold.enter (show Style.operator.readsContext = false from rfl)
  exact { opened with
    interpolation := rfl
    resumes := by rintro _ ⟨⟩; exact plain }

theorem continuesNumber_eq (h : Alike o (c :: rest) (c' :: rest') styles lines m m')
    (glance : Glance isDull (c :: rest) (c' :: rest')) (number : m.style = .number) :
    m.continuesNumber c rest = m'.continuesNumber c' rest' := by
  rcases glance.uncons with ⟨rfl, behind⟩ | dull
  case inr => rw [continuesNumber_dull dull.left, continuesNumber_dull dull.right]
  obtain ⟨word, text, text', -, -⟩ := h.run (by rw [number]; rfl)
  -- A number is a colour when its run starts with a hash.
  have first : m.runText.head? = m'.runText.head? := by
    rw [text, text']
    cases word <;> rfl
  have digit : rest.head?.any isDigit = rest'.head?.any isDigit :=
    behind.any_eq (eq_false_of_isDull (by decide))
  have sign {x : Char} (bright : isDull x = false) :
      (rest.head? == some x && rest.tail.head?.any isDigit) =
        (rest'.head? == some x && rest'.tail.head?.any isDigit) := by
    have same : (rest.head? == some x) = (rest'.head? == some x) :=
      Bool.eq_iff_iff.mpr (by simpa using behind.next_iff bright)
    rw [← same]
    cases next : rest.head? == some x with
    | false => rfl
    | true =>
      have third := behind.tail (by simpa using next) bright
      rw [third.any_eq (p := isDigit) (eq_false_of_isDull (by decide))]
  simp only [continuesNumber, first, ← digit, bne, h.previous.beq_eq (c := '.') (by decide),
    h.previous.beq_eq (c := 'e') (by decide), h.previous.beq_eq (c := 'E') (by decide),
    Bool.and_or_distrib_right, sign (x := '+') (by decide), sign (x := '-') (by decide)]

theorem stepUnicodeRange (h : Alike o (c :: rest) (c' :: rest') styles lines m m')
    (glance : Glance isDull (c :: rest) (c' :: rest')) (range : m.style = .unicodeRange) :
    Going o c rest c' rest' m.after m.held styles lines (m.stepUnicodeRange o c rest)
      (m'.stepUnicodeRange o c' rest') := by
  have digits := h.context.digitsLeft (.inr range)
  have notEscape : m.style ≠ .escapeChar := by rw [range]; decide
  have notName : m.style ≠ .identifier := by rw [range]; decide
  have digit (left left' : Int) (same : left = left') :
      Alike o (c :: rest) (c' :: rest') styles lines
        (m.update fun context => { context with
          escape := { context.escape with digitsLeft := left } })
        (m'.update fun context => { context with
          escape := { context.escape with digitsLeft := left' } }) :=
    h.update { h.context with
      digitsLeft := fun _ => same
      outer := fun escape => absurd escape notEscape
      before := fun name => absurd name notName }
  have hyphen : (c = '-' ∧ rest.head?.any isRangeChar = true) ↔
      (c' = '-' ∧ rest'.head?.any isRangeChar = true) := by
    rcases glance.uncons with ⟨rfl, behind⟩ | dull
    · rw [behind.any_eq (p := isRangeChar) (eq_false_of_isDull (by decide))]
    · refine iff_of_false ?_ ?_
      · rintro ⟨rfl, -⟩
        cases dull.left
      · rintro ⟨rfl, -⟩
        cases dull.right
  have inside : isRangeChar c = isRangeChar c' := by
    simpa using glance.any_eq (p := isRangeChar) (eq_false_of_isDull (by decide))
  unfold Machine.stepUnicodeRange
  refine ite_rel hyphen (fun _ => .stays (digit _ _ rfl)) fun _ => ?_
  have next := digit (m.context.escape.digitsLeft - 1) (m'.context.escape.digitsLeft - 1)
    (by rw [digits])
  exact ite_rel (by simp only [Machine.update, digits, inside]) (fun _ => next.leave)
    fun _ => .stays next

theorem stepRun (h : Alike o (c :: rest) (c' :: rest') styles lines m m')
    (glance : Glance isDull (c :: rest) (c' :: rest'))
    (closes : m.style.isBlockComment = true → c = '*' →
      (rest.head? = some '/' ↔ rest'.head? = some '/'))
    (name : m.style = .identifier → SameNameEnd o c rest c' rest' m) :
    Going o c rest c' rest' m.after m.held styles lines (m.stepRun o c rest)
      (m'.stepRun o c' rest') := by
  have same {x : Char} (bright : isDull x = false) : c = x ↔ c' = x := by
    simpa using glance.next_iff bright
  have runChar : isRunChar c = isRunChar c' := by
    simpa using glance.any_eq (p := isRunChar) isRunChar_dull
  have comment (block : m.style.isBlockComment = true) :
      Going o c rest c' rest' m.after m.held styles lines
      (if c = '*' ∧ rest.head? = some '/' then
        ((m.update Context.refold).hold 1).thenStart .default else m)
      (if c' = '*' ∧ rest'.head? = some '/' then
        ((m'.update Context.refold).hold 1).thenStart .default else m') := by
    refine ite_rel ?_
      (fun _ => .stays (((h.update h.context.refold).hold 1).thenStart rfl)) fun _ => .stays h
    rw [← same (by decide)]
    exact and_congr_right (closes block)
  have lineComment : Going o c rest c' rest' m.after m.held styles lines
      (if m.atLineStart then m.leave o c rest else m)
      (if m'.atLineStart then m'.leave o c' rest' else m') :=
    ite_rel (by rw [h.atLineStart]) (fun _ => h.leave) fun _ => .stays h
  have run : Going o c rest c' rest' m.after m.held styles lines
      (if isRunChar c then m else m.closeRun o c rest)
      (if isRunChar c' then m' else m'.closeRun o c' rest') :=
    ite_rel (by rw [runChar]) (fun _ => .stays h) fun _ => h.closeRun glance name
  unfold Machine.stepRun
  rw [← h.style]
  split
  case h_1 blank => exact .token h blank rfl rfl
  case h_5 number =>
    have dimension : Alike o (c :: rest) (c' :: rest') styles lines (m.restyle .dimension)
        (m'.restyle .dimension) :=
      h.restyle (h.context.enter rfl) (h.run (by rw [number]; rfl))
    have starts : startsName c rest.head? = startsName c' rest'.head? := by
      rcases glance.uncons with ⟨rfl, behind⟩ | dull
      · rw [startsName, startsName,
          behind.any_eq (p := isAfterLeader) (eq_false_of_isDull (by decide))]
      · rw [startsName_dull dull.left, startsName_dull dull.right]
    refine ite_rel (by rw [h.continuesNumber_eq glance number]) (fun _ => .stays h) fun _ => ?_
    refine ite_rel (by rw [starts]) (fun _ => .stays dimension) fun _ => ?_
    exact ite_rel (same (by decide)) (fun _ => .stays (h.thenStart rfl)) fun _ => h.leave
  case h_19 range => exact h.stepUnicodeRange glance range
  case h_20 => exact .stays h
  all_goals first
    | exact h.leave
    | exact comment (by simp only [*]; rfl)
    | exact lineComment
    | exact run
    | exact h.stepQuoted glance (by simp only [*]; rfl)

/-- Alike machines that see the same ahead go on alike, or look for a token alike. -/
theorem going (h : Alike o (c :: rest) (c' :: rest') styles lines m m')
    (sight : SameSight o c rest c' rest' m) :
    Going o c rest c' rest' m.after m.held styles lines (m.look o c rest) (m'.look o c' rest') := by
  unfold Machine.look
  rw [← h.style]
  split
  next escape =>
    have digits := h.context.digitsLeft (.inl escape)
    obtain ⟨outer, plain⟩ := h.context.outer escape
    have hexDigit : isHexDigit c = isHexDigit c' := by
      simpa using sight.glance.any_eq (p := isHexDigit) (eq_false_of_isDull (by decide))
    have next : Alike o (c :: rest) (c' :: rest') styles lines
        (m.update fun context => { context with
          escape := { context.escape with digitsLeft := context.escape.digitsLeft - 1 } })
        (m'.update fun context => { context with
          escape := { context.escape with digitsLeft := context.escape.digitsLeft - 1 } }) :=
      h.update { h.context with digitsLeft := fun _ => by simp only [digits] }
    refine ite_rel (by simp only [Machine.update, digits, hexDigit]) (fun _ => ?_)
      fun _ => .stays next
    -- The escape sequence is over, and the string around it reads the character.
    simp only [Machine.update, ← outer] at next ⊢
    refine (next.start (next.context.enter plain)).stepRun sight.glance
      (fun block => sight.closes (.inr ⟨escape, block⟩)) ?_
    intro name
    have reads : m.context.escape.outer = .identifier := name
    rw [reads] at plain
    exact Bool.noConfusion plain
  next => exact h.stepRun sight.glance (fun block => sight.closes (.inl block)) sight.name

theorem look (h : Alike o (c :: rest) (c' :: rest') styles lines m m')
    (sight : SameSight o c rest c' rest' m) (slash : SameSlash c rest c' rest') :
    Alike o (c :: rest) (c' :: rest') styles lines (m.look o c rest) (m'.look o c' rest') := by
  have going := h.going sight
  generalize m.look o c rest = found, m'.look o c' rest' = found' at going ⊢
  cases going with
  | stays alike => exact alike
  | token alike => exact alike.startToken sight.glance slash

theorem release {text text' : List Char} (h : Alike o text text' styles lines m m') :
    Alike o text text' styles lines (m.release text) (m'.release text') := by
  unfold Machine.release
  rw [← h.held, ← h.after]
  split
  next style _ waiting =>
    exact { h.start (h.context.enter (h.waits style waiting)) with
      after := rfl
      waits := by rintro _ ⟨⟩ }
  next => exact h

/-- A character is taken alike where its line ends in both texts or in neither. -/
theorem take (h : Alike o (c :: rest) (c :: rest') styles lines m m')
    (ends : lastOfLine c rest = lastOfLine c rest') :
    Alike o rest rest' styles lines (m.take o c rest) (m'.take o c rest') := by
  have remembered : Context.Alike o m.style (m.context.remember m.style c)
      (m'.context.remember m'.style c) := h.style ▸ h.context.remember c
  unfold Machine.take
  rw [← ends]
  refine release ?_
  exact { h with
    previous := .inl rfl
    atLineStart := rfl
    run := by
      intro reads
      obtain ⟨word, text, text', length, length'⟩ := h.run reads
      exact ⟨word ++ [c], by simp [text], by simp [text'], by simp [length], by simp [length']⟩
    context := by
      dsimp only
      split
      · exact remembered.endLine
      · exact remembered
    latest := by
      have latest := h.latest
      simp only [Machine.latest, List.replicate_succ, List.cons_append] at latest ⊢
      rw [latest, h.style]
    lines := by
      dsimp only
      split
      · rw [remembered.lineData_eq, h.lines, List.cons_append]
      · exact h.lines }

/-- Alike machines stay alike when they scan one character in front of texts that look the same,
if nothing holds it. -/
theorem step (h : Alike o (c :: rest) (c :: rest') styles lines m m')
    (sight : m.held = 0 → SameSight o c rest c rest' m)
    (slash : m.held = 0 → SameSlash c rest c rest')
    (ends : lastOfLine c rest = lastOfLine c rest') :
    Alike o rest rest' styles lines (m.step o c rest) (m'.step o c rest') := by
  unfold Machine.step
  rw [← h.held]
  split
  next free => exact (h.look (sight free) (slash free)).take ends
  next =>
    refine take ?_ ends
    exact { h with held := rfl }

end Alike

/-- Up to a line break texts look the same to every rule but the one that ends a name. -/
theorem SameSight.of_glance {o : ScanOptions} {c : Char} {rest rest' : List Char} {m : Machine}
    (line : Glance isLineBreak (c :: rest) (c :: rest'))
    (name : m.style = .identifier → SameNameEnd o c rest c rest' m) :
    SameSight o c rest c rest' m where
  glance := line.weaken isDull_of_isLineBreak
  closes := by
    rintro - rfl
    exact (line.behind rfl).next_iff rfl
  name := name

/-- Alike machines stay alike when they scan the same text. -/
theorem Alike.run_same {o : ScanOptions} {styles : List Style} {lines : List LineData}
    {m m' : Machine} (n : Nat) {text : List Char} (h : Alike o text text styles lines m m') :
    Alike o (text.drop n) (text.drop n) styles lines (m.run o n text) (m'.run o n text) := by
  induction n generalizing text m m' with
  | zero => exact h
  | succ n ih =>
    cases text with
    | nil => exact h
    | cons c rest =>
      have line : Glance isLineBreak (c :: rest) (c :: rest) := .refl _
      have solid : SameNameEnd o c rest c rest m := .of_solid (.refl c rest)
      exact ih (h.step (fun _ => .of_glance line fun _ => solid) (fun _ => line.slash) rfl)

end Machine

end CssHighlight
