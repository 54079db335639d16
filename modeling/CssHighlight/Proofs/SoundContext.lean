import CssHighlight.Proofs.Alike
import CssHighlight.Proofs.LineData

/-!
# Sound contexts

The nesting of a context stays within the bounds up to which it is stored, and what an interpolation
interrupts can go on behind it. Looking back over finished styles is a search on its own.
-/
namespace CssHighlight

namespace Style

/-- Strings and bare addresses, which escape sequences and interpolations interrupt. -/
def isQuoted : Style → Bool
  | .singleQuoted | .doubleQuoted | .url => true
  | _ => false

/-- Styles that may have to wait until an interruption is over. -/
def isBase (style : Style) : Bool :=
  style == .default || style.isQuoted

/-- Styles in which a line may end. -/
def isResting : Style → Bool
  | .default | .blockComment | .blockCommentDoc | .lineComment | .lineCommentDoc
  | .singleQuoted | .doubleQuoted | .url => true
  | _ => false

/-- Styles of a run in progress. The others are given to a run only when it ends. -/
def isLive : Style → Bool
  | .unknownPseudoClass | .unknownPseudoElement | .function | .important | .property
  | .unknownProperty | .value | .attributeName | .className | .idName | .placeholder
  | .tag => false
  | _ => true

theorem isBase_cases {style : Style} (base : style.isBase = true) :
    style = .default ∨ style = .singleQuoted ∨ style = .doubleQuoted ∨ style = .url := by
  revert base
  cases style <;> simp [isBase, isQuoted]

theorem isBase_of_isQuoted {style : Style} (quoted : style.isQuoted = true) :
    style.isBase = true := by
  simp [isBase, quoted]

theorem isResting_of_isBase {style : Style} (base : style.isBase = true) :
    style.isResting = true := by
  rcases isBase_cases base with rfl | rfl | rfl | rfl <;> rfl

theorem isLive_of_isResting {style : Style} (resting : style.isResting = true) :
    style.isLive = true := by
  revert resting
  cases style <;> simp [isResting, isLive]

theorem readsContext_of_isResting {style : Style} (resting : style.isResting = true) :
    style.readsContext = false := by
  revert resting
  cases style <;> simp [isResting, readsContext]

end Style

/-! ### Looking back -/

/-- The last character whose style is not that of a blank or comment, and its style, among
characters and styles that are given from the latest on. -/
def lookBehind (seen : List Char) (styles : List Style) : Option Char × Style :=
  match (seen.zip styles).find? fun entry => !entry.2.isSpace with
  | some (c, style) => (some c, style)
  | none => (none, .default)

theorem lookBehind_space {style : Style} (space : style.isSpace = true) (c : Char)
    (seen : List Char) (styles : List Style) :
    lookBehind (c :: seen) (style :: styles) = lookBehind seen styles := by
  simp [lookBehind, space]

theorem lookBehind_solid {style : Style} (solid : style.isSpace = false) (c : Char)
    (seen : List Char) (styles : List Style) :
    lookBehind (c :: seen) (style :: styles) = (some c, style) := by
  simp [lookBehind, solid]

namespace Context

/-- The nesting is counted within its bounds, and an interpolation interrupts only what can go on
behind it. -/
structure Sound (c : Context) : Prop extends Bounded c where
  resumes : ∀ style, c.interpolation = some style → style.isBase = true

theorem sound_initial : initial.Sound where
  mathDepth := by decide
  parenDepth := by decide
  selectorDepth := by decide
  resumes := by rintro _ ⟨⟩

namespace Sound

variable {c : Context}

theorem newBlock (h : c.Sound) : c.newBlock.Sound :=
  { h with
    mathDepth := sound_initial.mathDepth
    parenDepth := sound_initial.parenDepth
    selectorDepth := sound_initial.selectorDepth }

theorem enterParen (h : c.Sound) : c.enterParen.Sound :=
  { h with
    parenDepth := by
      have bound := h.parenDepth
      simp only [Context.enterParen]
      omega }

theorem enterMath (h : c.Sound) : c.enterMath.Sound := by
  unfold Context.enterMath
  split
  · exact { h with
      mathDepth := by
        have bound := h.mathDepth
        dsimp only
        omega }
  · exact h

theorem leaveParen (h : c.Sound) : c.leaveParen.Sound :=
  { h with
    mathDepth := by
      have bound := h.mathDepth
      simp only [Context.leaveParen]
      omega
    parenDepth := by
      have bound := h.parenDepth
      simp only [Context.leaveParen]
      omega
    selectorDepth := by
      have bound := h.selectorDepth
      simp only [Context.leaveParen]
      omega }

theorem endLine (h : c.Sound) (o : ScanOptions) : (c.endLine o).Sound :=
  { h with resumes := by rintro _ ⟨⟩ }

theorem remember (h : c.Sound) (style : Style) (char : Char) : (c.remember style char).Sound := by
  unfold Context.remember
  split
  · exact h
  · exact { h with }

end Sound

/-- A math function's name leaves nothing pending behind its parenthesis. -/
theorem enterMath_settled (c : Context) : c.enterMath.mathPending = false := by
  unfold enterMath
  split
  next => rfl
  next idle => simpa using (not_or.mp idle).2

/-- What classifying a run may do to the context: its final style counts as no blank, the last
significant character stays, and only a parenthesis finds a math function pending. -/
structure Classified (stop : Char) (c : Context) (x : Style × Context) : Prop where
  solid : x.1.isSpace = false
  sound : x.2.Sound
  lastChar : x.2.lastChar = c.lastChar
  settled : x.2.mathPending = true → stop = '('

theorem classifyName_classified {c : Context} (h : c.Sound) (settled : c.mathPending = false)
    (name : Option String) {stop : Char} (e : RunEnd) (ends : e.stop = some stop) :
    Classified stop c (classifyName name e c) := by
  have idle (pending : c.mathPending = true) : stop = '(' := by
    rw [settled] at pending
    exact Bool.noConfusion pending
  have same {style : Style} (solid : style.isSpace = false) : Classified stop c (style, c) :=
    ⟨solid, h, rfl, idle⟩
  unfold classifyName
  refine iteInduction (fun opens => ?_) fun _ => ?_
  · have paren : stop = '(' := by simpa [ends] using opens
    split
    · exact ⟨rfl, { h with }, rfl, fun _ => paren⟩
    · exact same rfl
  refine iteInduction (fun _ => same rfl) fun _ => ?_
  refine iteInduction (fun _ => same (by split <;> rfl)) fun _ => ?_
  refine iteInduction (fun _ => same rfl) fun _ => ?_
  refine iteInduction (fun _ => same rfl) fun _ => ?_
  refine iteInduction (fun _ => same rfl) fun _ => ?_
  refine iteInduction (fun _ => same rfl) fun _ => ?_
  refine iteInduction (fun _ => same rfl) fun _ => ?_
  refine iteInduction (fun _ => same rfl) fun _ => ?_
  refine iteInduction (fun _ => same rfl) fun _ => ?_
  refine iteInduction (fun _ => ?_) fun _ => ?_
  · exact ⟨by dsimp only; split <;> rfl, { h with }, rfl, idle⟩
  exact iteInduction (fun _ => same rfl) fun _ => same rfl

theorem classifyRun_classified {c : Context} (h : c.Sound) (settled : c.mathPending = false)
    {style : Style} (solid : style.isSpace = false) (name : Option String) {stop : Char}
    (e : RunEnd) (ends : e.stop = some stop) :
    Classified stop c (classifyRun style name e c) := by
  have idle (pending : c.mathPending = true) : stop = '(' := by
    rw [settled] at pending
    exact Bool.noConfusion pending
  unfold classifyRun
  split
  · exact classifyName_classified h settled name e ends
  · exact ⟨by simp only [classifyAtRule]; split <;> rfl, h, rfl, idle⟩
  · simp only [classifyPseudoClass]
    refine iteInduction (fun _ => ?_) fun _ => ⟨rfl, h, rfl, idle⟩
    split
    · refine ⟨rfl, { h with selectorDepth := ?_ }, rfl, idle⟩
      have bound := h.selectorDepth
      dsimp only
      omega
    · exact ⟨rfl, h, rfl, idle⟩
  · exact ⟨by simp only [classifyPseudoElement]; split <;> rfl, h, rfl, idle⟩
  · exact ⟨solid, h, rfl, idle⟩

end Context

end CssHighlight
