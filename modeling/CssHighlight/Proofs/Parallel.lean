import CssHighlight.Proofs.Alike
import CssHighlight.Proofs.LetterCase

/-!
# Parallel scans

Two scans run in parallel when their texts have the same letters and their options read them
alike: the dialects differ in no syntax that occurs, and the lists of pseudo-classes are the same.
The other keyword lists may differ. They choose between styles of one family, and the depth in math
functions is the only counter that they reach.
-/
namespace CssHighlight

/-- Dialects that read a text alike: where they differ, the text has nothing to read. -/
structure Dialect.AgreeOn (d d' : Dialect) (text : List Char) : Prop where
  dollarNames : ∀ c, ['$', c] <:+: text → isAfterLeader c = true → (d = .standard ↔ d' = .standard)
  addresses : '$' ∈ text → (d = .scss ↔ d' = .scss)
  placeholders : '%' ∈ text → (d = .scss ↔ d' = .scss)
  hashes : ['#', '{'] <:+: text → (d = .scss ↔ d' = .scss)
  ats : '@' ∈ text → (d = .less ↔ d' = .less)

namespace Dialect.AgreeOn

variable {d d' : Dialect} {text rest : List Char} {c : Char}

theorem refl (d : Dialect) (text : List Char) : d.AgreeOn d text where
  dollarNames := fun _ _ _ => Iff.rfl
  addresses := fun _ => Iff.rfl
  placeholders := fun _ => Iff.rfl
  hashes := fun _ => Iff.rfl
  ats := fun _ => Iff.rfl

private theorem beq_eq {e : Dialect} (same : d = e ↔ d' = e) : (d == e) = (d' == e) := by
  rw [Bool.eq_iff_iff, beq_iff_eq, beq_iff_eq]
  exact same

theorem startsRun_eq (agree : d.AgreeOn d' text) (inside : c :: rest <:+ text) :
    startsRun d c rest.head? = startsRun d' c rest.head? := by
  by_cases leader : c = '$' ∧ rest.head?.any isAfterLeader = true
  · obtain ⟨rfl, follows⟩ := leader
    cases rest with
    | nil => cases follows
    | cons x rest =>
      -- Only such a dollar sign asks for the dialect.
      have pair : ['$', x] <:+: text :=
        (List.prefix_append ['$', x] rest).isInfix.trans inside.isInfix
      simp only [startsRun, bne, beq_eq (agree.dollarNames x pair follows)]
  · rw [not_and, Bool.not_eq_true] at leader
    by_cases dollar : c = '$'
    · simp [startsRun, leader dollar]
    · simp [startsRun, beq_false_of_ne dollar]

theorem opensUrl_eq (agree : d.AgreeOn d' text) {next : Option Char}
    (inside : ∀ x, next = some x → x ∈ text) (name : Option String) :
    opensUrl name next d = opensUrl name next d' := by
  by_cases dollar : next = some '$'
  · simp only [opensUrl, beq_eq (agree.addresses (inside '$' dollar))]
  · simp [opensUrl, beq_false_of_ne dollar]

/-- A brace behind the lead of an interpolation opens one in both dialects or in neither. -/
theorem leads_eq (agree : d.AgreeOn d' text) (inside : [c, '{'] <:+: text) :
    leadsInterpolation d c = leadsInterpolation d' c := by
  by_cases hash : c = '#'
  · subst hash
    simp [leadsInterpolation, beq_eq (agree.hashes inside)]
  by_cases at_ : c = '@'
  · subst at_
    have member : '@' ∈ text := inside.subset List.mem_cons_self
    simp [leadsInterpolation, beq_eq (agree.ats member)]
  · simp [leadsInterpolation, beq_false_of_ne hash, beq_false_of_ne at_]

/-- Dialects that open an interpolation are both Less or neither is. -/
theorem less_of_leads (agree : d.AgreeOn d' text) (inside : [c, '{'] <:+: text)
    (leads : leadsInterpolation d c = true) : d = .less ↔ d' = .less := by
  simp only [leadsInterpolation, Bool.or_eq_true, Bool.and_eq_true, beq_iff_eq] at leads
  rcases leads with ⟨rfl, rfl⟩ | ⟨rfl, rfl⟩
  · have scss : d' = .scss := (agree.hashes inside).mp rfl
    simp [scss]
  · exact agree.ats (inside.subset List.mem_cons_self)

end Dialect.AgreeOn

/-- Options that decide alike how a scan of a text goes on. -/
structure ScanOptions.Akin (o o' : ScanOptions) (text : List Char) : Prop where
  dialects : o.dialect.AgreeOn o'.dialect text
  pseudoClass : o.keywords.pseudoClass = o'.keywords.pseudoClass

/-! ### What is compared -/

namespace Style

/-- One style for all those between which the keyword lists choose. -/
def family : Style → Style
  | .unknownProperty => .property
  | .unknownPseudoElement => .pseudoElement
  | .variableName => .atRule
  | .operatorInCalc => .operator
  | style => style

/-- The two styles of an arithmetic sign. -/
def isSign : Style → Bool
  | .operator | .operatorInCalc => true
  | _ => false

/-- Of a style the family is compared, and the style itself when the keyword lists are the same. -/
def shade (o o' : ScanOptions) (style : Style) : Style :=
  if o.keywords = o'.keywords then style else style.family

variable {o o' : ScanOptions} {style style' : Style}

theorem shade_eq_of_family (family : style.family = style'.family)
    (same : o.keywords = o'.keywords → style = style') : style.shade o o' = style'.shade o o' := by
  unfold shade
  split
  next keywords => exact same keywords
  next => exact family

theorem family_eq_of_shade (shade : style.shade o o' = style'.shade o o') :
    style.family = style'.family := by
  unfold Style.shade at shade
  split at shade
  · rw [shade]
  · exact shade

theorem family_of_isSign (sign : style.isSign = true) : style.family = .operator := by
  revert sign
  cases style <;> simp [isSign, family]

theorem isProperty_family (style : Style) : style.family.isProperty = style.isProperty := by
  cases style <;> rfl

end Style

/-- A line state without the bits from 2 to 7, which hold the depth in math functions. -/
def LineState.outsideMath (state : Nat) : Nat :=
  state % 4 + state / 0x100 * 0x100

/-- Of a line's data the fold level is compared when both scans compute it or neither does, and all
bits of the state but those of the depth in math functions; these too when the keyword lists are
the same. -/
def LineData.shade (o o' : ScanOptions) (line : LineData) : LineData where
  fold := if o.fold = o'.fold then line.fold else none
  state := if o.keywords = o'.keywords then line.state else LineState.outsideMath line.state

/-- A context's line state is made, outside those bits, of the other fields only. -/
theorem LineState.outsideMath_pack (c : Context) :
    outsideMath (pack c) = min (fieldValue c .inValue).toNat 1 +
      2 * min (fieldValue c .inBrackets).toNat 1 +
      (min (fieldValue c .parenDepth).toNat 255 +
        0x100 * min (fieldValue c .selectorDepth).toNat 255) * 0x100 := by
  have parts (flag flag' math high : Nat) : (min flag 1 + 2 * min flag' 1 +
        4 * min math 63 + 0x100 * high) % 4 = min flag 1 + 2 * min flag' 1 ∧
      (min flag 1 + 2 * min flag' 1 + 4 * min math 63 + 0x100 * high) / 0x100 = high := by
    omega
  have packed : pack c = min (fieldValue c .inValue).toNat 1 +
      2 * min (fieldValue c .inBrackets).toNat 1 + 4 * min (fieldValue c .mathDepth).toNat 63 +
      0x100 * (min (fieldValue c .parenDepth).toNat 255 +
        0x100 * min (fieldValue c .selectorDepth).toNat 255) := by
    simp only [pack, LineField.all, List.map_cons, List.map_nil, LineField.weight, LineField.limit,
      List.foldr_cons, List.foldr_nil]
    omega
  rw [outsideMath, packed, (parts _ _ _ _).1, (parts _ _ _ _).2]

/-! ### Contexts -/

/-- Contexts of two scans that run in parallel over `text`. -/
structure Context.Parallel (o o' : ScanOptions) (text : List Char) (c c' : Context) : Prop where
  inValue : c.inValue = c'.inValue
  inBrackets : c.inBrackets = c'.inBrackets
  mathDepth : o.keywords = o'.keywords → c.mathDepth = c'.mathDepth
  parenDepth : c.parenDepth = c'.parenDepth
  selectorDepth : c.selectorDepth = c'.selectorDepth
  before : SameLetter c.before c'.before
  before_mem : ∀ x, c.before = some x → x ∈ text
  lastChar : SameLetter c.lastChar c'.lastChar
  lastChar_mem : ∀ x, c.lastChar = some x → x ∈ text
  lastStyle : c.lastStyle.shade o o' = c'.lastStyle.shade o o'
  interpolation : c.interpolation = c'.interpolation
  less : c.interpolation.isSome = true → (o.dialect = .less ↔ o'.dialect = .less)
  resumes : c.interpolation ≠ some .atRule
  mathPending : o.keywords = o'.keywords → c.mathPending = c'.mathPending
  escape : c.escape = c'.escape
  outer : c.escape.outer ≠ .atRule
  foldHere : o.fold = o'.fold → c.foldHere = c'.foldHere
  foldNext : o.fold = o'.fold → c.foldNext = c'.foldNext

namespace Context.Parallel

variable {o o' : ScanOptions} {text : List Char} {c c' : Context}

theorem initial (o o' : ScanOptions) (text : List Char) :
    Context.Parallel o o' text .initial .initial where
  inValue := rfl
  inBrackets := rfl
  mathDepth := fun _ => rfl
  parenDepth := rfl
  selectorDepth := rfl
  before := rfl
  before_mem := by rintro _ ⟨⟩
  lastChar := rfl
  lastChar_mem := by rintro _ ⟨⟩
  lastStyle := rfl
  interpolation := rfl
  less := by rintro ⟨⟩
  resumes := by rintro ⟨⟩
  mathPending := fun _ => rfl
  escape := rfl
  outer := by rintro ⟨⟩
  foldHere := fun _ => rfl
  foldNext := fun _ => rfl

theorem isProperty_eq (h : Context.Parallel o o' text c c') :
    c.lastStyle.isProperty = c'.lastStyle.isProperty := by
  rw [← Style.isProperty_family, Style.family_eq_of_shade h.lastStyle, Style.isProperty_family]

theorem expectsColour_eq (h : Context.Parallel o o' text c c') :
    Machine.expectsColour c = Machine.expectsColour c' := by
  simp only [Machine.expectsColour, h.inValue, h.selectorDepth, h.parenDepth]

theorem joinsOperands_eq (h : Context.Parallel o o' text c c')
    (keywords : o.keywords = o'.keywords) : c.joinsOperands = c'.joinsOperands := by
  have style := h.lastStyle
  simp only [Style.shade, keywords, if_true] at style
  simp only [Context.joinsOperands, h.mathDepth keywords, h.lastChar.beq_eq (q := ')') (by decide),
    style]

theorem unfold (h : Context.Parallel o o' text c c') :
    Context.Parallel o o' text c.unfold c'.unfold :=
  { h with foldNext := fun fold => congrArg (· + 1) (h.foldNext fold) }

theorem refold (h : Context.Parallel o o' text c c') :
    Context.Parallel o o' text c.refold c'.refold :=
  { h with foldNext := fun fold => congrArg (· - 1) (h.foldNext fold) }

theorem newBlock (h : Context.Parallel o o' text c c') :
    Context.Parallel o o' text c.newBlock c'.newBlock :=
  { h with
    inValue := rfl
    inBrackets := rfl
    mathDepth := fun _ => rfl
    parenDepth := rfl
    selectorDepth := rfl }

theorem enterParen (h : Context.Parallel o o' text c c') :
    Context.Parallel o o' text c.enterParen c'.enterParen :=
  { h with parenDepth := by simp only [Context.enterParen, h.parenDepth] }

/-- Entering a math function is seen only in what depends on the keyword lists. -/
theorem enterMath (h : Context.Parallel o o' text c c') :
    Context.Parallel o o' text c.enterMath c'.enterMath := by
  have rest (x : Context) : x.enterMath =
      { x with mathDepth := x.enterMath.mathDepth, mathPending := x.enterMath.mathPending } := by
    unfold Context.enterMath
    split <;> rfl
  have math (keywords : o.keywords = o'.keywords) :
      c.enterMath.mathDepth = c'.enterMath.mathDepth ∧
        c.enterMath.mathPending = c'.enterMath.mathPending := by
    unfold Context.enterMath
    rw [h.mathDepth keywords, h.mathPending keywords]
    split
    · exact ⟨rfl, rfl⟩
    · exact ⟨h.mathDepth keywords, h.mathPending keywords⟩
  rw [rest c, rest c']
  exact { h with
    mathDepth := fun keywords => (math keywords).1
    mathPending := fun keywords => (math keywords).2 }

theorem leaveParen (h : Context.Parallel o o' text c c') :
    Context.Parallel o o' text c.leaveParen c'.leaveParen :=
  { h with
    parenDepth := by simp only [Context.leaveParen, h.parenDepth]
    mathDepth := fun keywords => by simp only [Context.leaveParen, h.mathDepth keywords]
    selectorDepth := by simp only [Context.leaveParen, h.selectorDepth] }

theorem remember (h : Context.Parallel o o' text c c') {style style' : Style}
    (shade : style.shade o o' = style'.shade o o') (space : style.isSpace = style'.isSpace)
    {char char' : Char} (same : char.toLower = char'.toLower) (member : char ∈ text) :
    Context.Parallel o o' text (c.remember style char) (c'.remember style' char') := by
  unfold Context.remember
  rw [← space]
  split
  · exact h
  · exact { h with
      lastChar := congrArg some same
      lastChar_mem := by
        rintro _ ⟨⟩
        exact member
      lastStyle := shade }

theorem endLine (h : Context.Parallel o o' text c c') :
    Context.Parallel o o' text (c.endLine o) (c'.endLine o') := by
  have level (fold : o.fold = o'.fold) : (c.endLine o).foldNext = (c'.endLine o').foldNext := by
    simp only [Context.endLine, fold, h.foldNext fold]
  exact { h with
    interpolation := rfl
    less := by rintro ⟨⟩
    resumes := by rintro ⟨⟩
    foldHere := level
    foldNext := level }

theorem lineData_shade (h : Context.Parallel o o' text c c') :
    (c.lineData o).shade o o' = (c'.lineData o').shade o o' := by
  have state (keywords : o.keywords = o'.keywords) : LineState.pack c = LineState.pack c' := by
    simp only [LineState.pack, LineField.all, List.map_cons, List.map_nil, LineState.fieldValue,
      h.inValue, h.inBrackets, h.mathDepth keywords, h.parenDepth, h.selectorDepth]
  simp only [LineData.shade, Context.lineData, LineData.mk.injEq]
  constructor
  · split
    next fold => rw [fold, h.foldHere fold, h.foldNext fold]
    next => rfl
  · split
    next keywords => exact state keywords
    next =>
      simp only [LineState.outsideMath_pack, LineState.fieldValue, h.inValue, h.inBrackets,
        h.parenDepth, h.selectorDepth]

end Context.Parallel

/-! ### Machines -/

namespace Machine

/-- Machines of two scans that run in parallel over `whole`, in front of two texts. The run in
progress has the same style in both, but for an arithmetic sign when the keyword lists differ. -/
structure Parallel (o o' : ScanOptions) (whole text text' : List Char) (m m' : Machine) :
    Prop where
  ahead : SameLetters text text'
  inside : text <:+ whole
  style : m.style = m'.style ∨
    o.keywords ≠ o'.keywords ∧ m.style.isSign = true ∧ m'.style.isSign = true
  atRule : m.style = .atRule → (o.dialect = .less ↔ o'.dialect = .less)
  runText : SameLetters m.runText m'.runText
  runLength : m.runLength = m'.runLength
  held : m.held = m'.held
  after : m.after = m'.after
  waits : m.after ≠ some .atRule
  previous : SameLetter m.previous m'.previous
  behind : ∀ x, m.previous = some x → x :: text <:+ whole
  atLineStart : m.atLineStart = m'.atLineStart
  context : Context.Parallel o o' whole m.context m'.context
  painted : m.painted.map (Style.shade o o') = m'.painted.map (Style.shade o o')
  lines : m.lines.map (LineData.shade o o') = m'.lines.map (LineData.shade o o')

namespace Parallel

variable {o o' : ScanOptions} {whole text text' : List Char} {m m' : Machine}

theorem shade_style (h : Parallel o o' whole text text' m m') :
    m.style.shade o o' = m'.style.shade o o' := by
  rcases h.style with same | ⟨keywords, sign, sign'⟩
  · rw [same]
  · rw [Style.shade, Style.shade, if_neg keywords, if_neg keywords, Style.family_of_isSign sign,
      Style.family_of_isSign sign']

theorem isSpace_eq (h : Parallel o o' whole text text' m m') :
    m.style.isSpace = m'.style.isSpace := by
  have solid {style : Style} (sign : style.isSign = true) : style.isSpace = false := by
    revert sign
    cases style <;> simp [Style.isSign, Style.isSpace]
  rcases h.style with same | ⟨-, sign, sign'⟩
  · rw [same]
  · rw [solid sign, solid sign']

/-- All styles that were given, those of the run in progress included, are compared alike. -/
theorem latest (h : Parallel o o' whole text text' m m') :
    m.latest.map (Style.shade o o') = m'.latest.map (Style.shade o o') := by
  simp only [Machine.latest, List.map_append, List.map_replicate, h.runLength, h.shade_style,
    h.painted]

theorem update {f g : Context → Context} (h : Parallel o o' whole text text' m m')
    (context : Context.Parallel o o' whole (f m.context) (g m'.context)) :
    Parallel o o' whole text text' (m.update f) (m'.update g) :=
  { h with context := context }

theorem hold (h : Parallel o o' whole text text' m m') (count : Nat) :
    Parallel o o' whole text text' (m.hold count) (m'.hold count) :=
  { h with held := rfl }

theorem thenStart (h : Parallel o o' whole text text' m m') {style : Style}
    (other : style ≠ .atRule) :
    Parallel o o' whole text text' (m.thenStart style) (m'.thenStart style) :=
  { h with
    after := rfl
    waits := fun same => other (Option.some.inj same) }

theorem start (h : Parallel o o' whole text text' m m') {style : Style}
    (atRule : style = .atRule → (o.dialect = .less ↔ o'.dialect = .less)) :
    Parallel o o' whole text text' (m.start style text) (m'.start style text') :=
  { h with
    style := .inl rfl
    atRule := atRule
    runText := h.ahead
    runLength := rfl
    painted := h.latest }

end Parallel

end Machine

end CssHighlight
