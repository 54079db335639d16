import CssHighlight.Proofs.Looking

/-!
# The rules of a scan

What a machine does at a character, as a relation beside the function: one constructor for each
rule, with the machine it leads to and what is known of the characters there. A property of all
scans is a case analysis over the rules.
-/
namespace CssHighlight

namespace Style

/-- The characters that a run of a style may hold while it is in progress. -/
def admits : Style → Char → Bool
  | .default, c => c.toNat < 0x80 && !isGraphic c
  | .operator, c => isGraphic c && !isNameChar c && c != '\'' && c != '"'
  | .operatorInCalc, c => c == '+' || c == '-' || c == '*' || c == '/'
  | .htmlCommentDelimiter, c => c == '<' || c == '!' || c == '-' || c == '>'
  | .number, c => isNameChar c || c == '.' || c == '+' || c == '-' || c == '#'
  | .dimension, c => isRunChar c || c == '.' || c == '+' || c == '#'
  | .blockComment, _ | .blockCommentDoc, _ | .lineComment, _ | .lineCommentDoc, _ => true
  | .singleQuoted, _ | .doubleQuoted, _ | .url, _ => true
  | .escapeChar, c => !isLineBreak c
  | .unicodeRange, c => isRangeChar c || c == 'u' || c == 'U' || c == '+' || c == '-'
  | .variableName, c => isRunChar c || c == '$' || c == '@'
  | .atRule, c => isRunChar c || c == '@'
  | .pseudoClass, c | .unknownPseudoClass, c => isRunChar c || c == ':'
  | .pseudoElement, c | .unknownPseudoElement, c => isRunChar c || c == ':'
  | .identifier, c | .function, c | .important, c | .property, c => isRunChar c
  | .unknownProperty, c | .value, c | .attributeName, c | .className, c => isRunChar c
  | .idName, c | .placeholder, c | .tag, c => isRunChar c

theorem isBlockComment_of_isBase {style : Style} (base : style.isBase = true) :
    style.isBlockComment = false := by
  revert base
  cases style <;> decide

theorem isBlockComment_of_isQuoted {style : Style} (quoted : style.isQuoted = true) :
    style.isBlockComment = false :=
  isBlockComment_of_isBase (isBase_of_isQuoted quoted)

end Style

namespace Context

/-- The context with another count of digits that are left. -/
def withDigits (left : Int) (x : Context) : Context :=
  { x with escape := { x.escape with digitsLeft := left } }

end Context

namespace Machine

/-- Ends the run in progress in a style and a context that were found for it. -/
def endAs (style : Style) (context : Context) (text : List Char) (m : Machine) : Machine :=
  ({ m with style := style, context := context }).start .default text

section Relations

variable (o : ScanOptions) (c : Char) (rest : List Char)

/-- Tokens that leave the nesting alone: the style, how many characters behind `c` are taken with
it, and the context. -/
inductive Opening (x : Context) : Style → Nat → Context → Prop
  | lineComment {style : Style} (kind : style = .lineComment ∨ style = .lineCommentDoc)
      (slash : c = '/') (next : rest.head? = some '/') : Opening x style 1 x
  | singleQuoted (quote : c = '\'') : Opening x .singleQuoted 0 x
  | doubleQuoted (quote : c = '"') : Opening x .doubleQuoted 0 x
  | htmlOpen (word : ['<', '!', '-', '-'] <+: c :: rest) : Opening x .htmlCommentDelimiter 3 x
  | htmlClose (word : ['-', '-', '>'] <+: c :: rest) : Opening x .htmlCommentDelimiter 2 x
  | number (first : isDigit c = true ∨ c = '.' ∨ c = '#') : Opening x .number 0 x
  | unicodeRange (first : c = 'u' ∨ c = 'U') (next : rest.head? = some '+') :
      Opening x .unicodeRange 1 (x.withDigits unicodeRangeDigits)
  | atRule (first : c = '@') : Opening x .atRule 0 { x with before := x.lastChar }
  | variableName (first : c = '$') : Opening x .variableName 0 { x with before := x.lastChar }
  | name (first : isRunChar c = true) : Opening x .identifier 0 { x with before := x.lastChar }
  | pseudoElement (colon : c = ':') (next : rest.head? = some ':')
      (third : rest.tail.head?.any isAfterLeader = true) : Opening x .pseudoElement 2 x
  | pseudoClass (colon : c = ':') (next : rest.head?.any isAfterLeader = true) :
      Opening x .pseudoClass 1 x

/-- What starts at `c`, outside all runs. -/
inductive TokenRule (m : Machine) : Machine → Prop
  | blank (plain : isNameStart c = false) (dull : isGraphic c = false) : TokenRule m m
  | blockComment {style : Style} (block : style.isBlockComment = true) (slash : c = '/')
      (star : rest.head? = some '*') :
      TokenRule m (((m.update Context.unfold).start style (c :: rest)).hold 1)
  | token {style : Style} {count : Nat} {context : Context}
      (opens : Opening c rest m.context style count context) :
      TokenRule m (((m.update fun _ => context).start style (c :: rest)).hold count)
  | punctuation (mark : Style.operator.admits c = true) :
      TokenRule m ((m.start .operator (c :: rest)).punctuate o c)

/-- The style and the context in which the run in progress ends in front of `c`. -/
inductive Ending (m : Machine) : Style → Context → Prop
  | plain (left : Int) (other : m.style.isBlockComment = false)
      (unnamed : isClassified o.dialect m.style = false) :
      Ending m m.style (m.context.withDigits left)
  | run (other : m.style.isBlockComment = false)
      (unnamed : isClassified o.dialect m.style = false) :
      Ending m m.style { m.context with lastStyle := m.style }
  | classified {name : Option String} {e : RunEnd} (stop : e.stop = some c)
      (kind : isClassified o.dialect m.style = true) (own : name = m.runName)
      (keywords : e.keywords = o.keywords) :
      Ending m (classifyRun m.style name e m.context).1
        { (classifyRun m.style name e m.context).2 with
          lastStyle := (classifyRun m.style name e m.context).1 }

/-- What happens at `c` under the current style, which is not that of an escape sequence. -/
inductive RunRule (m : Machine) : Machine → Prop
  | stays (left : Int) (wide : m.style ≠ .operator)
      (goesOn : m.style.isLive = true → m.style ≠ .escapeChar → m.style.admits c = true)
      (inside : isClassified o.dialect m.style = true → isRunChar c = true) :
      RunRule m (m.update (Context.withDigits left))
  | blank (blank : m.style = .default) : RunRule m (m.startToken o c rest)
  | dimension (number : m.style = .number) (starts : startsName c rest.head? = true) :
      RunRule m (m.restyle .dimension)
  | percent (number : m.style = .number) (sign : c = '%') : RunRule m (m.thenStart .default)
  | commentEnd (block : m.style.isBlockComment = true) (star : c = '*')
      (slash : rest.head? = some '/') :
      RunRule m (((m.update Context.refold).hold 1).thenStart .default)
  | escape {left : Int} (quoted : m.style.isQuoted = true) (backslash : c = '\\')
      (goesOn : rest.head?.any isLineBreak = false) :
      RunRule m (((m.update fun x => { x with escape := ⟨m.style, left⟩ }).start .escapeChar
        (c :: rest)).hold 1)
  | quoteEnd (quote : closingQuote m.style = some c) : RunRule m (m.thenStart .default)
  | interpolation (quoted : m.style.isQuoted = true) (brace : rest.head? = some '{')
      (leads : leadsInterpolation o.dialect c = true) :
      RunRule m (((m.update fun x => { x.unfold with interpolation := some m.style }).start
        .operator (c :: rest)).hold 1)
  | address (name : m.style = .identifier) (paren : c = '(') :
      RunRule m (((m.update fun x => x.unfold.enterParen).start .operator (c :: rest)).thenStart
        .url)
  | token {style : Style} {context : Context} (ends : Ending o c m style context) :
      RunRule m ((m.endAs style context (c :: rest)).startToken o c rest)

/-- What happens at `c`. An escape sequence goes on with a digit, or else the string around it goes
on. -/
inductive LookRule (m : Machine) : Machine → Prop
  | digit (left : Int) (escape : m.style = .escapeChar) (digit : isHexDigit c = true) :
      LookRule m (m.update (Context.withDigits left))
  | resumes (left : Int) {m' : Machine} (escape : m.style = .escapeChar)
      (rule : RunRule o c rest
        ((m.update (Context.withDigits left)).start m.context.escape.outer (c :: rest)) m') :
      LookRule m m'
  | runs {m' : Machine} (plain : m.style ≠ .escapeChar) (rule : RunRule o c rest m m') :
      LookRule m m'

end Relations

variable {o : ScanOptions} {c : Char} {rest : List Char} {m : Machine}

/-- A token that is taken with nothing behind its first character. -/
theorem TokenRule.single {style : Style} {context : Context} (held : m.held = 0)
    (opens : Opening c rest m.context style 0 context) :
    TokenRule o c rest m ((m.update fun _ => context).start style (c :: rest)) := by
  have rule := @TokenRule.token o _ _ _ _ _ _ opens
  rwa [hold, ← held] at rule

theorem startToken_rule (held : m.held = 0) : TokenRule o c rest m (m.startToken o c rest) := by
  simp only [startToken]
  -- Comments of both kinds.
  refine iteInduction (fun opens => ?_) fun _ => ?_
  · refine .blockComment ?_ opens.1 opens.2
    split <;> rfl
  refine iteInduction (fun opens => ?_) fun _ => ?_
  · refine .token (.lineComment ?_ opens.1 opens.2)
    split
    · exact .inr rfl
    · exact .inl rfl
  -- Strings, the delimiters of Html comments, and numbers.
  refine iteInduction (fun quote => .single held (.singleQuoted quote)) fun single => ?_
  refine iteInduction (fun quote => .single held (.doubleQuoted quote)) fun double => ?_
  refine iteInduction (fun word => .token (.htmlOpen (List.isPrefixOf_iff_prefix.mp word)))
    fun _ => ?_
  refine iteInduction (fun word => .token (.htmlClose (List.isPrefixOf_iff_prefix.mp word)))
    fun _ => ?_
  refine iteInduction (fun starts => .single held (.number ?_)) fun number => ?_
  · rcases starts with digit | colour
    · simp only [startsNumber, Bool.or_eq_true, Bool.and_eq_true, beq_iff_eq] at digit
      exact digit.imp_right fun point => .inl point.1
    · exact .inr (.inr colour.1)
  -- Unicode ranges and names.
  refine iteInduction (fun range => .token (.unicodeRange range.2.1 range.1)) fun _ => ?_
  refine iteInduction (fun starts => ?_) fun name => ?_
  · split
    next first => exact .single held (.atRule first)
    next =>
      split
      next first => exact .single held (.variableName first)
      next =>
        refine .single held (.name ?_)
        simp only [startsRun, Bool.or_eq_true, Bool.and_eq_true, beq_iff_eq] at starts
        simp only [isRunChar, isNameChar, Bool.or_eq_true, beq_iff_eq]
        grind
  refine iteInduction (fun word => .token (.pseudoElement word.1 word.2.1 word.2.2)) fun _ => ?_
  refine iteInduction (fun word => .token (.pseudoClass word.1 word.2.2)) fun _ => ?_
  -- What is left over is punctuation or blank.
  have plain : isNameStart c = false := by
    simp only [startsRun, Bool.or_eq_true, not_or, Bool.not_eq_true] at name
    exact name.1
  refine iteInduction (fun mark => .punctuation ?_) fun dull => .blank plain (by simpa using dull)
  simp only [startsNumber, Bool.or_eq_true, not_or, Bool.not_eq_true] at number
  simp [Style.admits, isNameChar, mark, plain, number.1.1, single, double]

theorem leave_rule (other : m.style.isBlockComment = false)
    (unnamed : isClassified o.dialect m.style = false) : RunRule o c rest m (m.leave o c rest) :=
  .token (.plain m.context.escape.digitsLeft other unnamed)

theorem isBlockComment_of_isClassified {dialect : Dialect} {style : Style}
    (kind : isClassified dialect style = true) : style.isBlockComment = false := by
  revert kind
  cases style <;> simp [isClassified, Style.isBlockComment]

theorem closeRun_rule (other : m.style.isBlockComment = false) :
    RunRule o c rest m (m.closeRun o c rest) := by
  unfold closeRun
  refine iteInduction (fun kind => ?_) fun unnamed => .token (.run other (by simpa using unnamed))
  exact iteInduction (fun address => .address address.1 address.2.1) fun _ =>
    .token (.classified rfl kind rfl rfl)

theorem isQuoted_of_closingQuote (quote : closingQuote m.style = some c) :
    m.style.isQuoted = true := by
  revert quote
  cases m.style <;> simp [closingQuote, Style.isQuoted]

/-- Strings and bare addresses are not classified. -/
theorem isClassified_of_isQuoted {dialect : Dialect} {style : Style}
    (quoted : style.isQuoted = true) : isClassified dialect style = false := by
  revert quoted
  cases style <;> simp [Style.isQuoted, isClassified]

theorem stepQuoted_rule (quoted : m.style.isQuoted = true) :
    RunRule o c rest m (m.stepQuoted o c rest) := by
  have unnamed : isClassified o.dialect m.style = false := isClassified_of_isQuoted quoted
  have stays : RunRule o c rest m m := by
    refine .stays m.context.escape.digitsLeft ?_ (fun _ _ => ?_) fun kind => ?_
    · rintro operator
      rw [operator] at quoted
      cases quoted
    · revert quoted
      cases m.style <;> simp [Style.isQuoted, Style.admits]
    · rw [unnamed] at kind
      cases kind
  have other := Style.isBlockComment_of_isQuoted quoted
  unfold stepQuoted
  refine iteInduction (fun backslash => ?_) fun _ => ?_
  · exact iteInduction (fun _ => stays) fun goesOn =>
      .escape quoted backslash (Bool.eq_false_iff.mpr goesOn)
  refine iteInduction (fun _ => leave_rule other unnamed) fun _ => ?_
  refine iteInduction (fun quote => .quoteEnd quote) fun _ => ?_
  exact iteInduction (fun opens => .interpolation quoted opens.1 opens.2) fun _ => stays

theorem stepUnicodeRange_rule (range : m.style = .unicodeRange) :
    RunRule o c rest m (m.stepUnicodeRange o c rest) := by
  have unnamed : isClassified o.dialect m.style = false := by rw [range]; rfl
  unfold stepUnicodeRange
  refine iteInduction (fun hyphen => ?_) fun _ => ?_
  · refine .stays unicodeRangeDigits (by simp [range]) (fun _ _ => ?_) (by simp [unnamed])
    simp [range, Style.admits, hyphen.1]
  refine iteInduction (fun _ => ?_) fun goesOn => ?_
  · exact .token (.plain (m.context.escape.digitsLeft - 1) (by rw [range]; rfl) unnamed)
  · refine .stays (m.context.escape.digitsLeft - 1) (by simp [range]) (fun _ _ => ?_)
      (by simp [unnamed])
    have inside : isRangeChar c = true := by simpa using (not_or.mp goesOn).2
    simp [range, Style.admits, inside]

/-- A number goes on with characters that a number may hold. -/
theorem admits_of_continuesNumber (goesOn : m.continuesNumber c rest = true) :
    Style.number.admits c = true := by
  unfold continuesNumber at goesOn
  simp only [Style.admits, isNameChar, Bool.or_eq_true, beq_iff_eq]
  split at goesOn
  next => exact .inl (.inl (.inl (.inl (by simpa [isNameChar] using goesOn))))
  split at goesOn
  next digit => exact .inl (.inl (.inl (.inl (.inr digit))))
  split at goesOn
  next point => exact .inl (.inl (.inl (.inr point)))
  split at goesOn
  next exponent =>
    refine .inl (.inl (.inl (.inl (.inl ?_))))
    rcases exponent with rfl | rfl <;> rfl
  split at goesOn
  next sign => grind
  next => cases goesOn

theorem stepRun_rule (m : Machine) : RunRule o c rest m (m.stepRun o c rest) := by
  have stays (wide : m.style ≠ .operator)
      (goesOn : m.style.isLive = true → m.style ≠ .escapeChar → m.style.admits c = true)
      (inside : isClassified o.dialect m.style = true → isRunChar c = true) :
      RunRule o c rest m m := .stays m.context.escape.digitsLeft wide goesOn inside
  unfold stepRun
  split
  case h_1 blank => exact .blank blank
  case h_5 number =>
    have other : m.style.isBlockComment = false := by rw [number]; rfl
    have unnamed : isClassified o.dialect m.style = false := by rw [number]; rfl
    refine iteInduction (fun goesOn => ?_) fun _ => ?_
    · refine stays (by simp [number]) (fun _ _ => ?_) (by simp [unnamed])
      rw [number]
      exact admits_of_continuesNumber goesOn
    refine iteInduction (fun starts => .dimension number starts) fun _ => ?_
    exact iteInduction (fun sign => .percent number sign) fun _ => leave_rule other unnamed
  case h_19 range => exact stepUnicodeRange_rule range
  case h_20 =>
    -- Only styles of finished runs and that of an escape sequence are left.
    have other : m.style ≠ .operator := by assumption
    refine stays other (fun live plain => ?_) fun kind => ?_
    · revert live plain
      cases style : m.style <;> simp_all [Style.isLive]
    · revert kind
      cases style : m.style <;> simp_all [isClassified]
  all_goals
    rename_i style
    first
      | exact leave_rule (by rw [style]; rfl) (by rw [style]; rfl)
      | exact stepQuoted_rule (by rw [style]; rfl)
      | exact iteInduction (fun closes => .commentEnd (by rw [style]; rfl) closes.1 closes.2)
          fun _ => stays (by simp [style]) (fun _ _ => by rw [style]; rfl)
            (by simp [style, isClassified])
      | exact iteInduction (fun _ => leave_rule (by rw [style]; rfl) (by rw [style]; rfl))
          fun _ => stays (by simp [style]) (fun _ _ => by rw [style]; rfl)
            (by simp [style, isClassified])
      | exact iteInduction
          (fun goesOn => stays (by simp [style]) (fun _ _ => by simp [style, Style.admits, goesOn])
            fun _ => goesOn)
          fun _ => closeRun_rule (by rw [style]; rfl)

/-- Looking at a character follows one of the rules. -/
theorem look_rule (m : Machine) : LookRule o c rest m (m.look o c rest) := by
  unfold look
  refine iteInduction (fun escape => ?_) fun plain => .runs plain (stepRun_rule m)
  refine iteInduction (fun _ => ?_) fun goesOn => ?_
  · exact .resumes (m.context.escape.digitsLeft - 1) escape (stepRun_rule _)
  · exact .digit (m.context.escape.digitsLeft - 1) escape
      (by simpa using (not_or.mp goesOn).2)

end Machine

end CssHighlight
