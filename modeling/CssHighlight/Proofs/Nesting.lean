import CssHighlight.Proofs.Output
import CssHighlight.Proofs.Rules
import CssHighlight.Proofs.Steady

/-!
# Nesting

Whatever context a scan starts in, a character leaves the depths as they are, clears them, enters
a parenthesis or leaves one, and only the end of a line changes the fold level of the line. What
these changes keep therefore holds of the data of every line that a scan finishes.
-/
namespace CssHighlight

namespace Context

/-- What a character may do to the depths. The parenthesis of a selector list is entered together
with the list. -/
inductive Depths (x y : Context) : Prop
  | same (mathDepth : y.mathDepth = x.mathDepth) (parenDepth : y.parenDepth = x.parenDepth)
      (selectorDepth : y.selectorDepth = x.selectorDepth)
  | cleared (mathDepth : y.mathDepth = 0) (parenDepth : y.parenDepth = 0)
      (selectorDepth : y.selectorDepth = 0)
  | entered
      (mathDepth : y.mathDepth = x.mathDepth ∨ y.mathDepth = min (x.mathDepth + 1) maxMathDepth)
      (parenDepth : y.parenDepth = min (x.parenDepth + 1) maxParenDepth)
      (selectorDepth : y.selectorDepth = x.selectorDepth ∨
        y.selectorDepth = min (x.selectorDepth + 1) maxSelectorDepth)
  | left (mathDepth : y.mathDepth = max (x.mathDepth - 1) 0)
      (parenDepth : y.parenDepth = max (x.parenDepth - 1) 0)
      (selectorDepth : y.selectorDepth = max (x.selectorDepth - 1) 0)

/-- Every depth stays within its bounds. -/
theorem Bounded.depths {x y : Context} (h : x.Bounded) (depths : Depths x y) : y.Bounded := by
  obtain ⟨mathDepth, parenDepth, selectorDepth⟩ := h
  have some : 0 ≤ maxMathDepth ∧ 0 ≤ maxParenDepth ∧ 0 ≤ maxSelectorDepth := by decide
  cases depths <;> exact ⟨by omega, by omega, by omega⟩

/-- What a character may do to the nesting before it is taken. -/
structure Nests (x y : Context) : Prop where
  foldHere : y.foldHere = x.foldHere
  depths : Depths x y

/-- Contexts that differ in neither the depths nor the fold level of the line. -/
structure Calm (x y : Context) : Prop where
  foldHere : y.foldHere = x.foldHere
  mathDepth : y.mathDepth = x.mathDepth
  parenDepth : y.parenDepth = x.parenDepth
  selectorDepth : y.selectorDepth = x.selectorDepth

theorem Calm.refl (x : Context) : Calm x x := ⟨rfl, rfl, rfl, rfl⟩

theorem Calm.nests {x y : Context} (h : Calm x y) : Nests x y :=
  ⟨h.foldHere, .same h.mathDepth h.parenDepth h.selectorDepth⟩

/-- A change of something else goes before a change of the nesting. -/
theorem Nests.of_calm {x y z : Context} (h : Nests y z) (calm : Calm x y) : Nests x z := by
  obtain ⟨foldHere, mathDepth, parenDepth, selectorDepth⟩ := calm
  refine ⟨h.foldHere.trans foldHere, ?_⟩
  cases h.depths with
  | same math paren selector =>
    exact .same (math.trans mathDepth) (paren.trans parenDepth) (selector.trans selectorDepth)
  | cleared math paren selector => exact .cleared math paren selector
  | entered math paren selector =>
    rw [mathDepth] at math
    rw [parenDepth] at paren
    rw [selectorDepth] at selector
    exact .entered math paren selector
  | left math paren selector =>
    rw [mathDepth] at math
    rw [parenDepth] at paren
    rw [selectorDepth] at selector
    exact .left math paren selector

theorem remember_calm (style : Style) (c : Char) (x : Context) : Calm x (x.remember style c) := by
  unfold remember
  split
  · exact .refl x
  · exact ⟨rfl, rfl, rfl, rfl⟩

theorem remember_foldNext (style : Style) (c : Char) (x : Context) :
    (x.remember style c).foldNext = x.foldNext := by
  unfold remember
  split <;> rfl

theorem enterMath_cases (x : Context) :
    x.enterMath.mathDepth = x.mathDepth ∨
      x.enterMath.mathDepth = min (x.mathDepth + 1) maxMathDepth := by
  unfold enterMath
  split
  · exact .inr rfl
  · exact .inl rfl

theorem enterMath_foldHere (x : Context) : x.enterMath.foldHere = x.foldHere := by
  unfold enterMath
  split <;> rfl

theorem enterMath_foldNext (x : Context) : x.enterMath.foldNext = x.foldNext := by
  unfold enterMath
  split <;> rfl

theorem enterMath_parenDepth (x : Context) : x.enterMath.parenDepth = x.parenDepth := by
  unfold enterMath
  split <;> rfl

theorem enterMath_selectorDepth (x : Context) : x.enterMath.selectorDepth = x.selectorDepth := by
  unfold enterMath
  split <;> rfl

/-- Behind a parenthesis that opens, whichever kind of selector list it may belong to. -/
theorem entered_nests {x y : Context} (foldHere : y.foldHere = x.foldHere)
    (mathDepth : y.mathDepth = x.mathDepth) (parenDepth : y.parenDepth = x.parenDepth)
    (selectorDepth : y.selectorDepth = x.selectorDepth ∨
      y.selectorDepth = min (x.selectorDepth + 1) maxSelectorDepth) :
    Nests x y.unfold.enterParen.enterMath where
  foldHere := by rw [enterMath_foldHere]; exact foldHere
  depths := by
    refine .entered ?_ ?_ ?_
    · have cases := y.unfold.enterParen.enterMath_cases
      simp only [enterParen, unfold, mathDepth] at cases ⊢
      exact cases
    · rw [enterMath_parenDepth]
      simp only [enterParen, unfold, parenDepth]
    · rw [enterMath_selectorDepth]
      exact selectorDepth

/-- Classifying a run may enter a selector list, in front of its parenthesis. -/
structure Classifies (stop : Option Char) (x : Context) (found : Style × Context) : Prop where
  foldHere : found.2.foldHere = x.foldHere
  foldNext : found.2.foldNext = x.foldNext
  mathDepth : found.2.mathDepth = x.mathDepth
  parenDepth : found.2.parenDepth = x.parenDepth
  selectorDepth : found.2.selectorDepth = x.selectorDepth ∨
    stop = some '(' ∧ found.2.selectorDepth = min (x.selectorDepth + 1) maxSelectorDepth

theorem classifyName_classifies (name : Option String) (e : RunEnd) (x : Context) :
    Classifies e.stop x (classifyName name e x) := by
  have calm {style : Style} {y : Context} (foldHere : y.foldHere = x.foldHere)
      (foldNext : y.foldNext = x.foldNext) (mathDepth : y.mathDepth = x.mathDepth)
      (parenDepth : y.parenDepth = x.parenDepth)
      (selectorDepth : y.selectorDepth = x.selectorDepth) : Classifies e.stop x (style, y) :=
    ⟨foldHere, foldNext, mathDepth, parenDepth, .inl selectorDepth⟩
  unfold classifyName
  refine iteInduction (fun _ => ?_) fun _ => ?_
  · split <;> exact calm rfl rfl rfl rfl rfl
  iterate 10 refine iteInduction (fun _ => calm rfl rfl rfl rfl rfl) fun _ => ?_
  exact iteInduction (fun _ => calm rfl rfl rfl rfl rfl) fun _ => calm rfl rfl rfl rfl rfl

theorem classifyRun_classifies (style : Style) (name : Option String) (e : RunEnd) (x : Context) :
    Classifies e.stop x (classifyRun style name e x) := by
  have same {style : Style} : Classifies e.stop x (style, x) := ⟨rfl, rfl, rfl, rfl, .inl rfl⟩
  unfold classifyRun
  split
  · exact classifyName_classifies name e x
  · exact same
  · simp only [classifyPseudoClass]
    refine iteInduction (fun _ => ?_) fun _ => same
    split
    next opens => exact ⟨rfl, rfl, rfl, rfl, .inr ⟨opens.1, rfl⟩⟩
    next => exact same
  · exact same
  · exact same

end Context

namespace Machine

open Context (Nests Calm)

variable {o : ScanOptions} {c : Char} {rest : List Char} {m m' : Machine}

theorem punctuate_nests (m : Machine) : Nests m.context (m.punctuate o c).context := by
  unfold punctuate
  split
  -- Braces.
  · split
    · exact Calm.nests ⟨rfl, rfl, rfl, rfl⟩
    · exact ⟨rfl, .cleared rfl rfl rfl⟩
  · split
    · exact Calm.nests ⟨rfl, rfl, rfl, rfl⟩
    · exact ⟨rfl, .cleared rfl rfl rfl⟩
  -- Brackets and parentheses.
  · exact Calm.nests ⟨rfl, rfl, rfl, rfl⟩
  · exact Calm.nests ⟨rfl, rfl, rfl, rfl⟩
  · exact Context.entered_nests rfl rfl rfl (.inl rfl)
  · exact ⟨rfl, .left rfl rfl rfl⟩
  all_goals first
    | exact (Calm.refl _).nests
    | split <;> exact Calm.nests ⟨rfl, rfl, rfl, rfl⟩

theorem TokenRule.nests (rule : TokenRule o c rest m m') : Nests m.context m'.context := by
  cases rule with
  | blank => exact (Calm.refl _).nests
  | blockComment => exact Calm.nests ⟨rfl, rfl, rfl, rfl⟩
  | token opens => cases opens <;> exact Calm.nests ⟨rfl, rfl, rfl, rfl⟩
  | punctuation => exact punctuate_nests (m.start .operator (c :: rest))

theorem Ending.nests {style : Style} {context : Context} (ends : Ending o c m style context)
    (held : m.held = 0) :
    Nests m.context ((m.endAs style context (c :: rest)).startToken o c rest).context := by
  have token (context : Context) :
      Nests context ((m.endAs style context (c :: rest)).startToken o c rest).context :=
    (@startToken_rule o c rest (m.endAs style context (c :: rest)) held).nests
  cases ends with
  | plain => exact (token _).of_calm ⟨rfl, rfl, rfl, rfl⟩
  | run => exact (token _).of_calm ⟨rfl, rfl, rfl, rfl⟩
  | classified stop kind =>
    obtain ⟨foldHere, -, mathDepth, parenDepth, selectorDepth⟩ :=
      Context.classifyRun_classifies m.style _ _ m.context
    rcases selectorDepth with same | ⟨paren, opens⟩
    · exact (token _).of_calm ⟨foldHere, mathDepth, parenDepth, same⟩
    · -- The list's parenthesis is entered by the same character.
      obtain rfl : c = '(' := Option.some.inj (stop.symm.trans paren)
      rw [startToken_paren]
      exact Context.entered_nests foldHere mathDepth parenDepth (.inr opens)

theorem RunRule.nests (rule : RunRule o c rest m m') (held : m.held = 0) :
    Nests m.context m'.context := by
  cases rule with
  | blank => exact (startToken_rule held).nests
  | address => exact ⟨rfl, .entered (.inl rfl) rfl (.inl rfl)⟩
  | token ends => exact ends.nests held
  | _ => exact Calm.nests ⟨rfl, rfl, rfl, rfl⟩

/-- Looking at a character changes the nesting in one of the ways listed above. -/
theorem look_nests (held : m.held = 0) : Nests m.context (m.look o c rest).context := by
  have rule := @look_rule o c rest m
  generalize m.look o c rest = m' at rule ⊢
  cases rule with
  | digit => exact Calm.nests ⟨rfl, rfl, rfl, rfl⟩
  | resumes _ _ rule => exact (rule.nests held).of_calm ⟨rfl, rfl, rfl, rfl⟩
  | runs _ rule => exact rule.nests held

/-! ### What every scan keeps -/

/-- A property of contexts that neither a character nor the end of a line breaks. -/
structure Invariant (o : ScanOptions) (p : Context → Prop) : Prop where
  nests : ∀ {x y : Context}, p x → Nests x y → p y
  endLine : ∀ {x : Context}, p x → p (x.endLine o)

variable {p : Context → Prop}

theorem context_take (m : Machine) : (m.take o c rest).context =
    if lastOfLine c rest then (m.context.remember m.style c).endLine o
    else m.context.remember m.style c := by
  unfold take
  rcases release_cases rest _ with ⟨_, -, -, released⟩ | ⟨-, released⟩ <;> rw [released]
  rfl

/-- What was noted in front of a token stays while its characters are taken. -/
theorem before_take (m : Machine) : (m.take o c rest).context.before = m.context.before := by
  rw [context_take, Context.remember]
  split <;> split <;> rfl

namespace Invariant

theorem take (h : Invariant o p) (holds : p m.context) :
    p (m.take o c rest).context ∧
      ∀ line ∈ (m.take o c rest).lines, line ∈ m.lines ∨ ∃ x, p x ∧ line = x.lineData o := by
  have remembered := h.nests holds (Context.remember_calm m.style c m.context).nests
  rw [context_take, lines_take]
  split
  · refine ⟨h.endLine remembered, fun line member => ?_⟩
    rcases List.mem_cons.mp member with rfl | older
    · exact .inr ⟨_, remembered, rfl⟩
    · exact .inl older
  · exact ⟨remembered, fun line member => .inl member⟩

theorem step (h : Invariant o p) (holds : p m.context) :
    p (m.step o c rest).context ∧
      ∀ line ∈ (m.step o c rest).lines, line ∈ m.lines ∨ ∃ x, p x ∧ line = x.lineData o := by
  unfold Machine.step
  split
  next held =>
    rw [← (@Finished.look o c rest m).lines]
    exact h.take (h.nests holds (look_nests held))
  next => exact h.take holds

/-- A scan keeps the property, and the data of every line that it finishes is that of a context
with the property. -/
theorem run (h : Invariant o p) (n : Nat) {text : List Char} (holds : p m.context) :
    p (m.run o n text).context ∧
      ∀ line ∈ (m.run o n text).lines, line ∈ m.lines ∨ ∃ x, p x ∧ line = x.lineData o := by
  induction n generalizing text m with
  | zero => exact ⟨holds, fun line member => .inl member⟩
  | succ n ih =>
    cases text with
    | nil => exact ⟨holds, fun line member => .inl member⟩
    | cons c rest =>
      obtain ⟨first, finished⟩ := @step o c rest m p h holds
      obtain ⟨last, others⟩ := @ih _ rest first
      refine ⟨last, fun line member => ?_⟩
      rcases others line member with earlier | found
      · exact finished line earlier
      · exact .inr found

end Invariant

end Machine

end CssHighlight
