import CssHighlight.Proofs.KeywordLookup
import CssHighlight.Proofs.Nesting

/-!
# Between two tokens

Outside of parentheses, brackets and interpolations a scan that is done with a token knows of what
stands before only its last character, its style, and whether a value has begun. From there it
passes blanks, the marks of blocks and declarations, and names, whose style is decided at their end.
-/
namespace CssHighlight

/-- A context outside of parentheses, brackets and interpolations. -/
structure Context.Flat (inValue : Bool) (lastChar : Option Char) (lastStyle : Style)
    (c : Context) : Prop where
  inValue : c.inValue = inValue
  lastChar : c.lastChar = lastChar
  lastStyle : c.lastStyle = lastStyle
  interpolation : c.interpolation = none
  inBrackets : c.inBrackets = false
  parenDepth : c.parenDepth = 0
  selectorDepth : c.selectorDepth = 0

namespace Context.Flat

variable {inValue : Bool} {lastChar : Option Char} {lastStyle : Style} {c : Context}

theorem remember (h : c.Flat inValue lastChar lastStyle) {style : Style}
    (solid : style.isSpace = false) (char : Char) :
    (c.remember style char).Flat inValue (some char) style := by
  rw [Context.remember, if_neg (by simp [solid])]
  exact { h with
    lastChar := rfl
    lastStyle := rfl }

theorem remember_blank (h : c.Flat inValue lastChar lastStyle) (char : Char) :
    (c.remember .default char).Flat inValue lastChar lastStyle := h

theorem endLine (h : c.Flat inValue lastChar lastStyle) (o : ScanOptions) :
    (c.endLine o).Flat inValue lastChar lastStyle :=
  { h with interpolation := rfl }

end Context.Flat

namespace Machine

/-- Scans a text to its end. -/
def toEnd (o : ScanOptions) : List Char → Machine → Machine
  | [], m => m
  | c :: rest, m => toEnd o rest (m.step o c rest)

theorem run_length (o : ScanOptions) (text : List Char) (m : Machine) :
    m.run o text.length text = m.toEnd o text := by
  induction text generalizing m with
  | nil => rfl
  | cons c rest ih => exact ih _

/-- A machine that nothing keeps from looking for a new token. -/
structure Between (o : ScanOptions) (inValue : Bool) (lastChar : Option Char)
    (lastStyle : Style) (m : Machine) : Prop where
  style : m.style = .default ∨ m.style = .operator
  held : m.held = 0
  after : m.after = none
  previous : m.previous.any (leadsInterpolation o.dialect) = false
  context : m.context.Flat inValue lastChar lastStyle

variable {o : ScanOptions} {c : Char} {rest : List Char} {m : Machine} {inValue : Bool}
  {lastChar : Option Char} {lastStyle : Style}

theorem flat_take (flat : (m.context.remember m.style c).Flat inValue lastChar lastStyle) :
    (m.take o c rest).context.Flat inValue lastChar lastStyle := by
  rw [context_take]
  split
  · exact flat.endLine o
  · exact flat

/-- Tokens of one character leave the machine free to look for the next. -/
theorem between_take (style : m.style = .default ∨ m.style = .operator) (held : m.held = 0)
    (after : m.after = none) (leads : leadsInterpolation o.dialect c = false)
    (flat : (m.context.remember m.style c).Flat inValue lastChar lastStyle) :
    Between o inValue lastChar lastStyle (m.take o c rest) := by
  have context : (m.take o c rest).context.Flat inValue lastChar lastStyle := flat_take flat
  rw [take_eq held after] at context ⊢
  exact ⟨style, held, after, leads, context⟩

/-- Such a machine looks for a token at once, in the style of blanks. -/
theorem Between.look (h : Between o inValue lastChar lastStyle m) (c : Char)
    (rest : List Char) :
    ∃ m', m.look o c rest = m'.startToken o c rest ∧ m'.style = .default ∧
      m'.latest = m.latest ∧ Between o inValue lastChar lastStyle m' := by
  rcases h.style with style | style
  · refine ⟨m, ?_, style, rfl, h⟩
    simp [Machine.look, stepRun, style]
  · refine ⟨m.start .default (c :: rest), ?_, rfl, rfl, ?_⟩
    · simp [Machine.look, stepRun, style, leave]
    · exact { h with style := .inl rfl }

/-! ### Blanks and marks -/

/-- Marks that lead no other token, which a colon does not do behind a declaration's name. -/
theorem startToken_mark (mark : c = '{' ∨ c = '}' ∨ c = ';' ∨
    c = ':' ∧ rest.head? ≠ some ':' ∧ m.context.lastStyle.isProperty = true) :
    m.startToken o c rest = (m.start .operator (c :: rest)).punctuate o c := by
  rcases mark with rfl | rfl | rfl | ⟨rfl, next, property⟩
  case inr.inr.inr =>
    simp [startToken, startsNumber, startsRun, isDigit, isNameStart, isGraphic, next, property]
  all_goals simp [startToken, startsNumber, startsRun, isDigit, isNameStart, isGraphic]

theorem isDigit_of_isNameStart (starts : isNameStart c = true) : isDigit c = false := by
  refine Bool.eq_false_iff.mpr fun digit => ?_
  simp only [isDigit, Bool.and_eq_true, decide_eq_true_eq] at digit
  have low : 48 ≤ c.toNat := UInt32.le_iff_toNat_le.mp digit.1
  have high : c.toNat ≤ 57 := UInt32.le_iff_toNat_le.mp digit.2
  simp only [isNameStart, Bool.or_eq_true, Bool.and_eq_true, decide_eq_true_eq, beq_iff_eq]
    at starts
  rcases starts with ((lower | upper) | rfl) | beyond
  · have letter : 97 ≤ c.toNat := UInt32.le_iff_toNat_le.mp lower.1
    omega
  · have letter : 65 ≤ c.toNat := UInt32.le_iff_toNat_le.mp upper.1
    omega
  · exact absurd high (by decide)
  · omega

theorem startToken_name (starts : isNameStart c = true) (next : rest.head? ≠ some '+') :
    m.startToken o c rest =
      (m.update fun x => { x with before := x.lastChar }).start .identifier (c :: rest) := by
  have other {x : Char} (mark : isNameStart x = false) : c ≠ x := by
    rintro rfl
    rw [starts] at mark
    cases mark
  have slash := other (x := '/') rfl
  have quote := other (x := '\'') rfl
  have quotes := other (x := '"') rfl
  have angle := other (x := '<') rfl
  have hyphen := other (x := '-') rfl
  have dot := other (x := '.') rfl
  have hash := other (x := '#') rfl
  have at_ := other (x := '@') rfl
  have dollar := other (x := '$') rfl
  have digit := isDigit_of_isNameStart starts
  simp [startToken, startsNumber, startsRun, starts, next, slash, quote, quotes, dot, hash, at_,
    dollar, digit, List.isPrefixOf, angle.symm, hyphen.symm]

theorem isRunChar_of_isNameStart (starts : isNameStart c = true) : isRunChar c = true := by
  simp [isRunChar, isNameChar, starts]

theorem ne_of_isRunChar {x : Char} (run : isRunChar c = true) (mark : isRunChar x = false) :
    c ≠ x := by
  rintro rfl
  rw [run] at mark
  cases mark

theorem leads_of_isRunChar (run : isRunChar c = true) (dialect : Dialect) :
    leadsInterpolation dialect c = false := by
  simp [leadsInterpolation, ne_of_isRunChar run (x := '#') rfl, ne_of_isRunChar run (x := '@') rfl]

/-- A blank leaves everything as it is. -/
theorem Between.step_blank (h : Between o inValue lastChar lastStyle m)
    (blank : isSeparator c = true) (rest : List Char) :
    Between o inValue lastChar lastStyle (m.step o c rest) ∧
      (m.step o c rest).latest = .default :: m.latest := by
  obtain ⟨m', looked, style, latest, between⟩ := h.look c rest
  have leads : leadsInterpolation o.dialect c = false := by
    rcases separator_cases blank with rfl | rfl | rfl | rfl | rfl | rfl <;> rfl
  rw [Machine.step, if_pos h.held, looked, startToken_separator o blank, latest_take, style, latest]
  refine ⟨between_take between.style between.held between.after leads ?_, rfl⟩
  rw [style]
  exact between.context.remember_blank c

/-- An operator of one character, which decides whether a value goes on behind it. -/
theorem Between.step_operator (h : Between o inValue lastChar lastStyle m)
    (leads : leadsInterpolation o.dialect c = false) {goesOn : Bool}
    (token : ∀ m', Between o inValue lastChar lastStyle m' →
      ∃ x, m'.startToken o c rest = (m'.start .operator (c :: rest)).update (fun _ => x) ∧
        x.Flat goesOn lastChar lastStyle) :
    Between o goesOn (some c) .operator (m.step o c rest) ∧
      (m.step o c rest).latest = .operator :: m.latest := by
  obtain ⟨m', looked, -, latest, between⟩ := h.look c rest
  obtain ⟨x, started, flat⟩ := token m' between
  rw [Machine.step, if_pos h.held, looked, started, latest_take]
  constructor
  · have solid : Style.operator.isSpace = false := rfl
    exact between_take (.inr rfl) between.held between.after leads (flat.remember solid c)
  · rw [← latest]
    rfl

/-- A mark that opens or closes a block, or ends a declaration, also ends a value. -/
theorem Between.step_mark (h : Between o inValue lastChar lastStyle m)
    (mark : c = '{' ∨ c = '}' ∨ c = ';') (rest : List Char) :
    Between o false (some c) .operator (m.step o c rest) ∧
      (m.step o c rest).latest = .operator :: m.latest := by
  have leads : leadsInterpolation o.dialect c = false := by
    rcases mark with rfl | rfl | rfl <;> rfl
  refine h.step_operator leads fun m' between => ?_
  have flat := between.context
  rcases mark with rfl | rfl | rfl
  · refine ⟨m'.context.unfold.newBlock, ?_, ?_⟩
    · rw [startToken_mark (.inl rfl), punctuate, if_neg]
      · rfl
      · simp [Machine.start, between.previous]
    · exact { flat with
        inValue := rfl
        inBrackets := rfl
        parenDepth := rfl
        selectorDepth := rfl }
  · refine ⟨m'.context.refold.newBlock, ?_, ?_⟩
    · rw [startToken_mark (.inr (.inl rfl)), punctuate]
      simp only [Machine.start, flat.interpolation, Machine.update]
    · exact { flat with
        inValue := rfl
        inBrackets := rfl
        parenDepth := rfl
        selectorDepth := rfl }
  · refine ⟨{ m'.context with inValue := false }, ?_, { flat with inValue := rfl }⟩
    rw [startToken_mark (.inr (.inr (.inl rfl))), punctuate, if_pos]
    · rfl
    · exact ⟨flat.parenDepth, flat.inBrackets⟩

/-- The colon behind a declaration's name. -/
theorem Between.step_colon (h : Between o inValue lastChar lastStyle m)
    (next : rest.head? ≠ some ':') (property : lastStyle.isProperty = true) :
    Between o inValue (some ':') .operator (m.step o ':' rest) ∧
      (m.step o ':' rest).latest = .operator :: m.latest := by
  refine h.step_operator rfl fun m' between => ⟨m'.context, ?_, between.context⟩
  have known : m'.context.lastStyle.isProperty = true := by rw [between.context.lastStyle, property]
  rw [startToken_mark (.inr (.inr (.inr ⟨rfl, next, known⟩))), punctuate, if_neg]
  · rfl
  · simp [Machine.start, known]

/-! ### Names -/

/-- A machine behind the first characters of a name, which have not got their style yet. -/
structure InName (o : ScanOptions) (inValue : Bool) (before : Option Char) (styles : List Style)
    (chars rest : List Char) (m : Machine) : Prop where
  style : m.style = .identifier
  held : m.held = 0
  after : m.after = none
  runText : m.runText = chars ++ rest
  runLength : m.runLength = chars.length
  painted : m.painted = styles
  previous : m.previous.any (leadsInterpolation o.dialect) = false
  before : m.context.before = before
  lastChar : m.context.lastChar.any isRunChar = true
  context : m.context.Flat inValue m.context.lastChar .identifier

variable {before : Option Char} {styles : List Style} {chars : List Char}

/-- Taking one more character of a name. -/
theorem inName_take (style : m.style = .identifier) (held : m.held = 0) (after : m.after = none)
    (runText : m.runText = chars ++ c :: rest) (runLength : m.runLength = chars.length)
    (context : m.context.Flat inValue lastChar lastStyle) (run : isRunChar c = true) :
    InName o inValue m.context.before m.painted (chars ++ [c]) rest (m.take o c rest) := by
  have flat : (m.take o c rest).context.Flat inValue (some c) .identifier := by
    refine flat_take ?_
    rw [style]
    exact context.remember rfl c
  have before : (m.take o c rest).context.before = m.context.before := before_take m
  rw [take_eq held after] at flat before ⊢
  constructor
  case style => exact style
  case held => exact held
  case after => exact after
  case runText => simp [runText]
  case runLength => simp [runLength]
  case painted => rfl
  case previous => exact leads_of_isRunChar run o.dialect
  case before => exact before
  case lastChar => exact (congrArg (Option.any isRunChar) flat.lastChar).trans run
  case context => exact { flat with lastChar := rfl }

theorem Between.startName (h : Between o inValue lastChar lastStyle m)
    (starts : isNameStart c = true) (next : rest.head? ≠ some '+') :
    InName o inValue lastChar m.latest [c] rest (m.step o c rest) := by
  obtain ⟨m', looked, style, latest, between⟩ := h.look c rest
  have flat := between.context
  have run := isRunChar_of_isNameStart starts
  rw [Machine.step, if_pos h.held, looked, startToken_name starts next, ← latest,
    ← flat.lastChar]
  let named := (m'.update fun x => { x with before := x.lastChar }).start .identifier (c :: rest)
  have taken : InName o inValue _ _ ([] ++ [c]) rest (named.take o c rest) :=
    inName_take rfl between.held between.after rfl rfl { flat with } run
  exact taken

theorem InName.step (h : InName o inValue before styles chars (c :: rest) m)
    (run : isRunChar c = true) :
    InName o inValue before styles (chars ++ [c]) rest (m.step o c rest) := by
  have looked : m.look o c rest = m := by
    simp [Machine.look, stepRun, h.style, run]
  rw [Machine.step, if_pos h.held, looked, ← h.before, ← h.painted]
  exact inName_take h.style h.held h.after h.runText h.runLength h.context run

/-- A name goes on to its last character. -/
theorem InName.run {others : List Char} (goesOn : ∀ c ∈ others, isRunChar c = true)
    (h : InName o inValue before styles chars (others ++ rest) m) :
    ∃ m', InName o inValue before styles (chars ++ others) rest m' ∧
      m.toEnd o (others ++ rest) = m'.toEnd o rest := by
  induction others generalizing chars m with
  | nil => exact ⟨m, by simpa using h, rfl⟩
  | cons c others ih =>
    obtain ⟨run, behind⟩ := List.forall_mem_cons.mp goesOn
    obtain ⟨m', named, same⟩ := ih behind (h.step run)
    exact ⟨m', by simpa using named, same⟩

/-- What a name is looked up as. -/
def keyword (chars : List Char) : Option String :=
  if chars.length < 128 then some (Text.lower (String.ofList chars)) else none

theorem InName.runName_eq (h : InName o inValue before styles chars rest m) :
    m.runName = keyword chars := by
  simp only [runName, keyword, h.runLength, h.runText, List.take_left, Text.lower,
    String.toList_ofList]

/-- A name gets its style at the first character that does not belong to it. -/
theorem InName.close (h : InName o inValue before styles chars (c :: rest) m)
    (ends : isRunChar c = false) (plain : c ≠ '(') {style : Style} {goesOn : Bool}
    (classified : classifyName (keyword chars)
      ⟨some c, nextSolid (c :: rest), o.dialect, o.keywords⟩ m.context =
        (style, { m.context with inValue := goesOn })) :
    ∃ m', Between o goesOn m.context.lastChar style m' ∧
      m'.latest = List.replicate chars.length style ++ styles ∧
      m.toEnd o (c :: rest) = m'.toEnd o (c :: rest) := by
  let m' := m.endAs style { m.context with inValue := goesOn, lastStyle := style } (c :: rest)
  have kind : isClassified o.dialect Style.identifier = true := rfl
  -- The end of the name looks at the character just as the machine behind the name does.
  have looked : m.look o c rest = m'.look o c rest := by
    have ended : m.look o c rest = m.closeRun o c rest := by
      simp [Machine.look, stepRun, h.style, ends]
    simp only [ended, closeRun, h.style, kind, if_true, plain, false_and, and_false, if_false,
      classifyRun, h.runName_eq, classified]
    rfl
  refine ⟨m', ?_, ?_, ?_⟩
  · exact {
      style := .inl rfl
      held := h.held
      after := h.after
      previous := h.previous
      context := { h.context with
        inValue := rfl
        lastStyle := rfl } }
  · simp only [m', endAs, latest, Machine.start, h.runLength, h.painted, List.replicate_zero,
      List.nil_append]
  · have held : m'.held = 0 := h.held
    simp only [toEnd, Machine.step, h.held, held, looked]
    rfl

/-! ### Styles of names -/

/-- The name of a rule is a tag. -/
theorem classifyName_rule {e : RunEnd} {x : Context} (name : Option String)
    (stop : e.stop ≠ some '(') (next : e.next = some '{')
    (before : x.before.all fun c => c == '{' || c == '}' || c == ';')
    (flat : x.Flat false lastChar lastStyle) :
    classifyName name e x = (.tag, { x with inValue := false }) := by
  have same : { x with inValue := false } = x := by
    rw [← flat.inValue]
  have other {c : Char} (plain : (c == '{' || c == '}' || c == ';') = false) :
      x.before ≠ some c := by
    intro equal
    rw [equal, Option.all_some, plain] at before
    cases before
  rw [same]
  simp [classifyName, stop, next, flat.inValue, flat.interpolation, flat.inBrackets,
    flat.parenDepth, flat.selectorDepth, other (c := '!') rfl, other (c := ':') rfl,
    other (c := '=') rfl, other (c := '.') rfl, other (c := '#') rfl, other (c := '%') rfl]

/-- The name of a declaration is a property, and begins a value. -/
theorem classifyName_declaration {e : RunEnd} {x : Context} (name : Option String)
    (stop : e.stop ≠ some '(') (next : e.next = some ':')
    (before : x.before = some '{' ∨ x.before = some ';') (flat : x.Flat false lastChar lastStyle) :
    classifyName name e x =
      (if e.keywords.property.contains name then .property else .unknownProperty,
        { x with inValue := true }) := by
  rcases before with before | before
  all_goals simp [classifyName, stop, next, before, flat.inValue, flat.interpolation,
    flat.inBrackets, flat.parenDepth]

theorem classifyName_value {e : RunEnd} {x : Context} (name : Option String)
    (stop : e.stop ≠ some '(') (before : x.before ≠ some '!')
    (flat : x.Flat true lastChar lastStyle) :
    classifyName name e x = (.value, { x with inValue := true }) := by
  have same : { x with inValue := true } = x := by
    rw [← flat.inValue]
  rw [same]
  simp [classifyName, stop, before, flat.inValue, flat.interpolation, flat.parenDepth]

theorem lower_ne_empty {chars : List Char} (some_ : chars ≠ []) :
    Text.lower (String.ofList chars) ≠ "" := by
  have image (before : List Char) (c : Char) (after : List Char) :
      Text.lowerChar before c after ≠ [] := by
    unfold Text.lowerChar
    split
    · simp
    · split
      · simp
      · split <;> simp
  cases chars with
  | nil => exact absurd rfl some_
  | cons c rest =>
    intro empty
    have chars := congrArg String.toList empty
    simp only [Text.lower, String.toList_ofList, Text.lowerChars, Text.lowerFrom] at chars
    exact image [] c rest (List.append_eq_nil_iff.mp chars).1

/-- A name is found in a list when it is short enough, and is one of the words in lower case. -/
theorem contains_keyword (list : KeywordList) (some_ : chars ≠ []) :
    list.contains (keyword chars) = true ↔
      chars.length < 128 ∧ Text.lower (String.ofList chars) ∈ list.words := by
  unfold keyword
  split
  next short => simp [KeywordList.contains_some_iff, short, lower_ne_empty some_]
  next long => simp [KeywordList.contains, long]

end Machine

end CssHighlight
