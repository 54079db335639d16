import CssHighlight.Proofs.Glance

/-!
# Alike machines

Two machines are alike when nothing that the rules read tells them apart: they may have come from
different texts, and may have finished different styles and lines before.
-/
namespace CssHighlight

/-- Styles of runs whose text is read again before they end. -/
def Style.readsRun : Style → Bool
  | .number | .identifier | .pseudoClass | .pseudoElement | .atRule => true
  | _ => false

/-- Styles of runs that read what a context keeps for them alone. -/
def Style.readsContext : Style → Bool
  | .identifier | .escapeChar | .unicodeRange => true
  | _ => false

def Style.isBlockComment : Style → Bool
  | .blockComment | .blockCommentDoc => true
  | _ => false

/-- Contexts that the rules cannot tell apart inside a run of a style. What stood before a run is
read only by names, the rest of an escape sequence only inside it, and fold levels only when they
are computed. -/
structure Context.Alike (o : ScanOptions) (style : Style) (c c' : Context) : Prop where
  inValue : c.inValue = c'.inValue
  inBrackets : c.inBrackets = c'.inBrackets
  mathDepth : c.mathDepth = c'.mathDepth
  parenDepth : c.parenDepth = c'.parenDepth
  selectorDepth : c.selectorDepth = c'.selectorDepth
  before : style = .identifier → c.before = c'.before
  lastChar : c.lastChar = c'.lastChar
  lastStyle : c.lastStyle = c'.lastStyle
  interpolation : c.interpolation = c'.interpolation
  resumes : ∀ inner, c.interpolation = some inner → inner.readsContext = false
  mathPending : c.mathPending = c'.mathPending
  digitsLeft : style = .escapeChar ∨ style = .unicodeRange →
    c.escape.digitsLeft = c'.escape.digitsLeft
  outer : style = .escapeChar →
    c.escape.outer = c'.escape.outer ∧ c.escape.outer.readsContext = false
  foldHere : o.fold = true → c.foldHere = c'.foldHere
  foldNext : o.fold = true → c.foldNext = c'.foldNext

/-- Two choices by the same condition are related when their outcomes are. -/
theorem ite_rel {α β : Type} {r : α → β → Prop} {p q : Prop} [Decidable p] [Decidable q]
    {a b : α} {a' b' : β} (same : p ↔ q) (yes : p → r a a') (no : ¬p → r b b') :
    r (if p then a else b) (if q then a' else b') := by
  by_cases holds : p
  · rw [if_pos holds, if_pos (same.mp holds)]
    exact yes holds
  · rw [if_neg holds, if_neg fun other => holds (same.mpr other)]
    exact no holds

namespace Context.Alike

variable {o : ScanOptions} {style : Style} {c c' : Context}

theorem refl (o : ScanOptions) (style : Style) {c : Context}
    (outer : style = .escapeChar → c.escape.outer.readsContext = false)
    (resumes : ∀ inner, c.interpolation = some inner → inner.readsContext = false) :
    Context.Alike o style c c :=
  ⟨rfl, rfl, rfl, rfl, rfl, fun _ => rfl, rfl, rfl, rfl, resumes, rfl, fun _ => rfl,
    fun escape => ⟨rfl, outer escape⟩, fun _ => rfl, fun _ => rfl⟩

theorem enter (h : Context.Alike o style c c') {inner : Style}
    (plain : inner.readsContext = false) : Context.Alike o inner c c' :=
  { h with
    before := by rintro rfl; exact Bool.noConfusion plain
    digitsLeft := by rintro (rfl | rfl) <;> exact Bool.noConfusion plain
    outer := by rintro rfl; exact Bool.noConfusion plain }

theorem right (h : Context.Alike o style c c') (plain : style.readsContext = false) :
    Context.Alike o style c' c' :=
  refl o style (by rintro rfl; exact Bool.noConfusion plain) (h.interpolation ▸ h.resumes)

theorem unfold (h : Context.Alike o style c c') : Context.Alike o style c.unfold c'.unfold :=
  { h with foldNext := fun fold => congrArg (· + 1) (h.foldNext fold) }

theorem refold (h : Context.Alike o style c c') : Context.Alike o style c.refold c'.refold :=
  { h with foldNext := fun fold => congrArg (· - 1) (h.foldNext fold) }

theorem newBlock (h : Context.Alike o style c c') :
    Context.Alike o style c.newBlock c'.newBlock :=
  { h with
    inValue := rfl
    inBrackets := rfl
    mathDepth := rfl
    parenDepth := rfl
    selectorDepth := rfl }

theorem enterParen (h : Context.Alike o style c c') :
    Context.Alike o style c.enterParen c'.enterParen :=
  { h with parenDepth := by simp only [Context.enterParen, h.parenDepth] }

theorem enterMath (h : Context.Alike o style c c') :
    Context.Alike o style c.enterMath c'.enterMath := by
  unfold Context.enterMath
  rw [← h.mathDepth, ← h.mathPending]
  split
  · exact { h with
      mathDepth := by simp only [h.mathDepth]
      mathPending := rfl }
  · exact h

theorem leaveParen (h : Context.Alike o style c c') :
    Context.Alike o style c.leaveParen c'.leaveParen :=
  { h with
    parenDepth := by simp only [Context.leaveParen, h.parenDepth]
    mathDepth := by simp only [Context.leaveParen, h.mathDepth]
    selectorDepth := by simp only [Context.leaveParen, h.selectorDepth] }

theorem remember (h : Context.Alike o style c c') (char : Char) :
    Context.Alike o style (c.remember style char) (c'.remember style char) := by
  unfold Context.remember
  split
  · exact h
  · exact { h with
      lastChar := rfl
      lastStyle := rfl }

theorem endLine (h : Context.Alike o style c c') :
    Context.Alike o style (c.endLine o) (c'.endLine o) := by
  have level (fold : o.fold = true) : (c.endLine o).foldNext = (c'.endLine o).foldNext := by
    simp only [Context.endLine, h.foldNext fold]
  exact { h with
    interpolation := rfl
    resumes := by rintro _ ⟨⟩
    foldHere := level
    foldNext := level }

theorem lineData_eq (h : Context.Alike o style c c') : c.lineData o = c'.lineData o := by
  have state : LineState.pack c = LineState.pack c' := by
    simp only [LineState.pack, LineField.all, List.map_cons, List.map_nil, LineState.fieldValue,
      h.inValue, h.inBrackets, h.mathDepth, h.parenDepth, h.selectorDepth]
  unfold Context.lineData
  rw [state]
  split
  next fold => rw [h.foldHere fold, h.foldNext fold]
  next => rfl

end Context.Alike

namespace Machine

/-- The styles of all characters that were taken, the latest first. -/
def latest (m : Machine) : List Style :=
  List.replicate m.runLength m.style ++ m.painted

/-- Characters that were taken last, when the rules cannot tell them apart. -/
def SamePrevious (x y : Option Char) : Prop :=
  x = y ∨ x.any isDull = true ∧ y.any isDull = true

/-- Machines that the rules cannot tell apart in front of two texts, the first of which finished
some styles and lines more, before all that the second one finished. -/
structure Alike (o : ScanOptions) (text text' : List Char) (styles : List Style)
    (lines : List LineData) (m m' : Machine) : Prop where
  style : m.style = m'.style
  held : m.held = m'.held
  after : m.after = m'.after
  waits : ∀ inner, m.after = some inner → inner.readsContext = false
  previous : SamePrevious m.previous m'.previous
  atLineStart : m.atLineStart = m'.atLineStart
  run : m.style.readsRun = true → ∃ word, m.runText = word ++ text ∧ m'.runText = word ++ text' ∧
    m.runLength = word.length ∧ m'.runLength = word.length
  context : Context.Alike o m.style m.context m'.context
  latest : m.latest = m'.latest ++ styles
  lines : m.lines = m'.lines ++ lines

@[simp] theorem latest_start (style : Style) (text : List Char) (m : Machine) :
    (m.start style text).latest = m.latest := rfl

theorem SamePrevious.of_lineBreak {x y : Option Char} (breaks : x.any isLineBreak = true)
    (breaks' : y.any isLineBreak = true) : SamePrevious x y := by
  have dull {z : Option Char} (breaks : z.any isLineBreak = true) : z.any isDull = true := by
    cases z with
    | none => cases breaks
    | some c => exact isDull_of_isLineBreak breaks
  exact .inr ⟨dull breaks, dull breaks'⟩

theorem SamePrevious.symm {x y : Option Char} (same : SamePrevious x y) : SamePrevious y x :=
  same.imp Eq.symm And.symm

theorem SamePrevious.trans {x y z : Option Char} (same : SamePrevious x y)
    (same' : SamePrevious y z) : SamePrevious x z := by
  rcases same with rfl | ⟨dull, dull'⟩
  · exact same'
  · rcases same' with rfl | ⟨-, dull''⟩
    · exact .inr ⟨dull, dull'⟩
    · exact .inr ⟨dull, dull''⟩

theorem SamePrevious.beq_eq {x y : Option Char} (same : SamePrevious x y) {c : Char}
    (bright : isDull c = false) : (x == some c) = (y == some c) := by
  rcases same with rfl | ⟨dull, dull'⟩
  · rfl
  · have absent : ∀ z : Option Char, z.any isDull = true → (z == some c) = false := by
      intro z dull
      refine beq_false_of_ne ?_
      intro equal
      rw [equal, Option.any_some, bright] at dull
      exact Bool.noConfusion dull
    rw [absent x dull, absent y dull']

theorem leadsInterpolation_dull (dialect : Dialect) {c : Char} (dull : isDull c = true) :
    leadsInterpolation dialect c = false :=
  eq_false_of_isDull (p := leadsInterpolation dialect) (by simp [leadsInterpolation]) dull

theorem SamePrevious.leads_eq {x y : Option Char} (same : SamePrevious x y) (dialect : Dialect) :
    x.any (leadsInterpolation dialect) = y.any (leadsInterpolation dialect) := by
  rcases same with rfl | ⟨dull, dull'⟩
  · rfl
  · have absent : ∀ z : Option Char, z.any isDull = true →
        z.any (leadsInterpolation dialect) = false := by
      intro z dull
      cases z with
      | none => rfl
      | some c => exact leadsInterpolation_dull dialect dull
    rw [absent x dull, absent y dull']

/-- No token starts at a blank. -/
theorem startToken_separator (o : ScanOptions) {c : Char} (blank : isSeparator c = true)
    (rest : List Char) (m : Machine) : m.startToken o c rest = m := by
  rcases separator_cases blank with rfl | rfl | rfl | rfl | rfl | rfl <;>
    simp [startToken, startsNumber, startsRun, isDigit, isNameStart, isGraphic]

theorem startToken_lineBreak (o : ScanOptions) {c : Char} (breaks : isLineBreak c = true)
    (rest : List Char) (m : Machine) : m.startToken o c rest = m :=
  startToken_separator o (isSeparator_of_isLineBreak breaks) rest m

namespace Alike

variable {o : ScanOptions} {text text' : List Char} {styles : List Style} {lines : List LineData}
  {m m' : Machine}

theorem update {f g : Context → Context} (h : Alike o text text' styles lines m m')
    (context : Context.Alike o m.style (f m.context) (g m'.context)) :
    Alike o text text' styles lines (m.update f) (m'.update g) :=
  { h with context := context }

theorem hold (h : Alike o text text' styles lines m m') (count : Nat) :
    Alike o text text' styles lines (m.hold count) (m'.hold count) :=
  { h with held := rfl }

theorem thenStart (h : Alike o text text' styles lines m m') {style : Style}
    (plain : style.readsContext = false) :
    Alike o text text' styles lines (m.thenStart style) (m'.thenStart style) :=
  { h with
    after := rfl
    waits := by rintro _ ⟨⟩; exact plain }

/-- A run that starts in both machines starts alike, whatever ran before it. -/
theorem start (h : Alike o text text' styles lines m m') {style : Style}
    (context : Context.Alike o style m.context m'.context) :
    Alike o text text' styles lines (m.start style text) (m'.start style text') :=
  { h with
    style := rfl
    run := fun _ => ⟨[], rfl, rfl, rfl, rfl⟩
    context := context }

theorem update_start {f g : Context → Context} (h : Alike o text text' styles lines m m')
    {style : Style} (context : Context.Alike o style (f m.context) (g m'.context)) :
    Alike o text text' styles lines ((m.update f).start style text)
      ((m'.update g).start style text') :=
  { h with
    style := rfl
    run := fun _ => ⟨[], rfl, rfl, rfl, rfl⟩
    context := context }

theorem restyle (h : Alike o text text' styles lines m m') {style : Style}
    (context : Context.Alike o style m.context m'.context)
    (run : ∃ word, m.runText = word ++ text ∧ m'.runText = word ++ text' ∧
      m.runLength = word.length ∧ m'.runLength = word.length) :
    Alike o text text' styles lines (m.restyle style) (m'.restyle style) := by
  obtain ⟨word, -, -, length, length'⟩ := id run
  have latest := h.latest
  simp only [Machine.latest, length, length', h.style, List.append_assoc,
    List.append_cancel_left_eq] at latest
  exact { h with
    style := rfl
    run := fun _ => run
    context := context
    latest := by simp only [Machine.latest, Machine.restyle, length, length', latest,
      List.append_assoc] }

theorem punctuate (h : Alike o text text' styles lines m m')
    (fresh : m.runText = text ∧ m'.runText = text' ∧ m.runLength = 0 ∧ m'.runLength = 0)
    (c : Char) : Alike o text text' styles lines (m.punctuate o c) (m'.punctuate o c) := by
  have context := h.context
  have sign : Alike o text text' styles lines
      (if m.context.joinsOperands then m.restyle .operatorInCalc else m)
      (if m.context.joinsOperands then m'.restyle .operatorInCalc else m') := by
    split
    · exact h.restyle (context.enter rfl) ⟨[], fresh⟩
    · exact h
  -- Whatever punctuation asks of the context, alike contexts answer the same.
  have joins : m'.context.joinsOperands = m.context.joinsOperands := by
    simp only [Context.joinsOperands, context.mathDepth, context.lastChar, context.lastStyle]
  unfold Machine.punctuate
  rw [joins, ← context.interpolation, ← h.previous.leads_eq, ← context.parenDepth,
    ← context.lastStyle, ← context.inBrackets]
  split
  · split
    · exact h.update { context.unfold with
        interpolation := rfl
        resumes := by rintro _ ⟨⟩; rfl }
    · exact h.update context.unfold.newBlock
  · split
    next open_ =>
      refine Alike.thenStart (h.update ?_) (context.resumes _ open_)
      exact { context.refold with
        interpolation := rfl
        resumes := by rintro _ ⟨⟩ }
    · exact h.update context.refold.newBlock
  · exact h.update { context.unfold with inBrackets := rfl }
  · exact h.update { context.refold with inBrackets := rfl }
  · exact h.update context.unfold.enterParen.enterMath
  · exact h.update context.refold.leaveParen
  · split
    · exact h.update { context with inValue := rfl }
    · exact h
  · split
    · exact h.update { context with inValue := rfl }
    · exact h
  · exact sign
  · exact sign
  · exact sign
  · exact sign
  · exact h

end Alike

end Machine

end CssHighlight
