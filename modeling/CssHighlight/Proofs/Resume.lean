import CssHighlight.Proofs.Output
import CssHighlight.Proofs.Steady

/-!
# Resuming behind a finished line

The data of a finished line, its last style, and what looking back finds are all that the rules
read of the text before. Inside a string or a bare address the last significant character is not
restored, and need not be: the first character there is one itself.
-/
namespace CssHighlight

namespace Context

def withLast (x : Option Char) (style : Style) (c : Context) : Context :=
  { c with lastChar := x, lastStyle := style }

/-- The context `c'` was restored behind a line that ended in context `c` and in a style. -/
structure Restored (o : ScanOptions) (style : Style) (c c' : Context) : Prop where
  inValue : c.inValue = c'.inValue
  inBrackets : c.inBrackets = c'.inBrackets
  mathDepth : c.mathDepth = c'.mathDepth
  parenDepth : c.parenDepth = c'.parenDepth
  selectorDepth : c.selectorDepth = c'.selectorDepth
  interpolation : c'.interpolation = none
  mathPending : c'.mathPending = false
  foldHere : o.fold = true → c.foldHere = c'.foldHere
  foldNext : o.fold = true → c'.foldNext = c'.foldHere
  last : style.isSpace = true → c.lastChar = c'.lastChar ∧ c.lastStyle = c'.lastStyle

end Context

namespace Machine

variable {o : ScanOptions} {c : Char} {rest text : List Char} {m m' : Machine}

/-! ### The first character inside a string -/

theorem take_withLast (x : Option Char) {style : Style} (solid : m.style.isSpace = false) :
    (m.update (Context.withLast x style)).take o c rest = m.take o c rest := by
  have overwritten (context : Context) :
      (Context.withLast x style context).remember m.style c = context.remember m.style c := by
    simp [Context.remember, Context.withLast, solid]
  simp only [take, update, overwritten]

theorem startToken_closeParen (o : ScanOptions) (rest : List Char) (m : Machine) :
    m.startToken o ')' rest =
      (m.start .operator (')' :: rest)).update fun c => c.refold.leaveParen := by
  simp [startToken, startsNumber, startsRun, isDigit, isNameStart, isGraphic, punctuate]

/-- A machine whose last significant character is another one, about to overwrite it. -/
structure SameButLast (x : Option Char) (style : Style) (m m' : Machine) : Prop where
  eq : m = m'.update (Context.withLast x style)
  solid : m'.style.isSpace = false

/-- Inside a string the last significant character is not read, and the current one is taken
under a style that counts as no blank. -/
theorem stepQuoted_sameButLast (quoted : m.style.isQuoted = true) (x : Option Char)
    (style : Style) :
    SameButLast x style ((m.update (Context.withLast x style)).stepQuoted o c rest)
      (m.stepQuoted o c rest) := by
  have solid : m.style.isSpace = false := by
    revert quoted
    cases m.style <;> simp [Style.isQuoted, Style.isSpace]
  have stays : SameButLast x style (m.update (Context.withLast x style)) m := ⟨rfl, solid⟩
  unfold stepQuoted
  refine ite_rel Iff.rfl (fun _ => ?_) fun _ => ?_
  · exact ite_rel Iff.rfl (fun _ => stays) fun _ => ⟨rfl, rfl⟩
  refine ite_rel Iff.rfl (fun closes => ?_) fun _ => ?_
  · rw [closes.1, leave, leave, startToken_closeParen, startToken_closeParen]
    exact ⟨rfl, rfl⟩
  refine ite_rel Iff.rfl (fun _ => ⟨rfl, solid⟩) fun _ => ?_
  exact ite_rel Iff.rfl (fun _ => ⟨rfl, rfl⟩) fun _ => stays

theorem stepRun_quoted (quoted : m.style.isQuoted = true) :
    m.stepRun o c rest = m.stepQuoted o c rest := by
  rw [stepRun]
  split <;> simp_all [Style.isQuoted]

theorem look_quoted (quoted : m.style.isQuoted = true) :
    m.look o c rest = m.stepQuoted o c rest := by
  have other : m.style ≠ .escapeChar := fun same => by simp [same, Style.isQuoted] at quoted
  rw [look, if_neg other, stepRun_quoted quoted]

/-- Where a scan goes on inside a string, what it remembers of the last significant character
makes no difference. -/
theorem step_withLast (quoted : m.style.isQuoted = true) (held : m.held = 0) (x : Option Char)
    (style : Style) : (m.update (Context.withLast x style)).step o c rest = m.step o c rest := by
  have same : SameButLast x style ((m.update (Context.withLast x style)).stepQuoted o c rest)
      (m.stepQuoted o c rest) := stepQuoted_sameButLast quoted x style
  rw [step, step, if_pos held, if_pos (show (m.update _).held = 0 from held),
    look_quoted quoted, @look_quoted _ _ _ (m.update _) quoted, same.eq, take_withLast x same.solid]

/-! ### In front of a line -/

/-- Machines in front of a line that go on alike, whatever they have written. Inside a string the
last significant character may be another one. -/
structure Abreast (o : ScanOptions) (m m' : Machine) : Prop where
  style : m.style = m'.style
  resting : m.style.isResting = true
  held : m.held = 0 ∧ m'.held = 0
  after : m.after = none ∧ m'.after = none
  previous : SamePrevious m.previous m'.previous
  atLineStart : m.atLineStart = m'.atLineStart
  context : Context.Restored o m.style m.context m'.context
  interpolation : m.context.interpolation = none
  mathPending : m.context.mathPending = false
  level : o.fold = true → m.context.foldNext = m.context.foldHere

/-- The machine with nothing written, in front of `text`. -/
def anew (text : List Char) (m : Machine) : Machine :=
  startAt m.style text m.previous m.atLineStart m.context

/-- No style in which a line may end reads its run again. -/
theorem readsRun_of_isResting {style : Style} (resting : style.isResting = true) :
    style.readsRun = false := by
  revert resting
  cases style <;> simp [Style.isResting, Style.readsRun]

namespace Abreast

/-- The second machine goes on like the first one once it has nothing written and remembers the
same last significant character. -/
theorem alike (h : Abreast o m m') (text text' : List Char) :
    Alike o text text' m.latest m.lines m
      ((m'.anew text').update (Context.withLast m.context.lastChar m.context.lastStyle)) := by
  have plain := Style.readsContext_of_isResting h.resting
  have never {style : Style} (reads : style.readsContext = true) : m.style ≠ style := by
    rintro rfl
    rw [plain] at reads
    exact Bool.noConfusion reads
  exact {
    style := h.style
    held := h.held.1
    after := h.after.1
    waits := by simp [h.after.1]
    previous := h.previous
    atLineStart := h.atLineStart
    run := fun reads => by simp [readsRun_of_isResting h.resting] at reads
    context := {
      inValue := h.context.inValue
      inBrackets := h.context.inBrackets
      mathDepth := h.context.mathDepth
      parenDepth := h.context.parenDepth
      selectorDepth := h.context.selectorDepth
      before := fun same => absurd same (never rfl)
      lastChar := rfl
      lastStyle := rfl
      interpolation := h.interpolation.trans h.context.interpolation.symm
      resumes := by simp [h.interpolation]
      mathPending := h.mathPending.trans h.context.mathPending.symm
      digitsLeft := fun same => (same.elim (never rfl) (never rfl)).elim
      outer := fun same => absurd same (never rfl)
      foldHere := h.context.foldHere
      foldNext := fun fold =>
        (h.level fold).trans ((h.context.foldHere fold).trans (h.context.foldNext fold).symm) }
    latest := rfl
    lines := rfl }

/-- The first step makes up for the last significant character: looking back has restored it, or it
is overwritten inside a string. -/
theorem step_anew (h : Abreast o m m') (c : Char) (rest : List Char) :
    ((m'.anew (c :: rest)).update
      (Context.withLast m.context.lastChar m.context.lastStyle)).step o c rest =
      (m'.anew (c :: rest)).step o c rest := by
  by_cases space : m.style.isSpace = true
  · obtain ⟨lastChar, lastStyle⟩ := h.context.last space
    rw [lastChar, lastStyle]
    rfl
  · have quoted : m.style.isQuoted = true := by
      have resting := h.resting
      revert space resting
      cases m.style <;> simp [Style.isSpace, Style.isResting, Style.isQuoted]
    exact step_withLast (h.style ▸ quoted) rfl m.context.lastChar m.context.lastStyle

theorem run_anew (h : Abreast o m m') {n : Nat} (positive : 0 < n) (some : text ≠ []) :
    ((m'.anew text).update
      (Context.withLast m.context.lastChar m.context.lastStyle)).run o n text =
      (m'.anew text).run o n text := by
  obtain ⟨k, rfl⟩ := Nat.exists_eq_succ_of_ne_zero (Nat.ne_of_gt positive)
  obtain ⟨c, rest, rfl⟩ := List.exists_cons_of_ne_nil some
  rw [run, run, h.step_anew]

/-- A machine is abreast of itself. -/
theorem right (h : Abreast o m m') : Abreast o m' m' where
  style := rfl
  resting := h.style ▸ h.resting
  held := ⟨h.held.2, h.held.2⟩
  after := ⟨h.after.2, h.after.2⟩
  previous := .inl rfl
  atLineStart := rfl
  context := { h.context with
    inValue := rfl
    inBrackets := rfl
    mathDepth := rfl
    parenDepth := rfl
    selectorDepth := rfl
    foldHere := fun _ => rfl
    last := fun _ => ⟨rfl, rfl⟩ }
  interpolation := h.context.interpolation
  mathPending := h.context.mathPending
  level := h.context.foldNext

/-- A machine goes on alike with nothing written. -/
theorem alike_anew (h : Abreast o m m') (text : List Char) :
    Alike o text text m'.latest m'.lines m' (m'.anew text) :=
  h.right.alike text text

end Abreast

/-! ### Resuming -/

/-- A machine that has finished the same as another one, behind what was finished before, and goes
on in the same style. -/
structure Extends (styles : List Style) (lines : List LineData) (m m' : Machine) : Prop where
  latest : m.latest = m'.latest ++ styles
  lines : m.lines = m'.lines ++ lines
  endStyle : m.finish.style = m'.finish.style

theorem Alike.extends {text text' : List Char} {styles : List Style} {lines : List LineData}
    (h : Alike o text text' styles lines m m') : Extends styles lines m m' :=
  ⟨h.latest, h.lines, by rw [style_finish, style_finish, h.style, h.after]⟩

/-- The restored machine is abreast of the one that came to the line. -/
theorem Steady.abreast {seen : List Char} {b : Char}
    (h : Steady o (b :: seen) text m) (breaks : isLineBreak b = true)
    (ends : lastOfLine b text = true) {previous : Option Char}
    (before : previous.any isLineBreak = true) {context : Context}
    (restored : Context.Restored o m.style m.context context) :
    Abreast o m (startAt m.style text previous true context) := by
  have previous : m.previous.any isLineBreak = true := by simpa [h.previous] using breaks
  obtain ⟨resting, held, -⟩ := h.rests previous
  have recorded := h.ended (by simpa using ends)
  exact {
    style := rfl
    resting := resting
    held := ⟨held, rfl⟩
    after := ⟨h.idle held, rfl⟩
    previous := .of_lineBreak previous before
    atLineStart := recorded.atLineStart
    context := restored
    interpolation := recorded.interpolation
    mathPending := h.settled
    level := fun _ => recorded.level }

/-- A scan that resumes behind a finished line finishes what the scan from the front finishes
there. -/
theorem Steady.extends_restored {seen : List Char} {b : Char}
    (h : Steady o (b :: seen) text m) (breaks : isLineBreak b = true)
    (ends : lastOfLine b text = true) {previous : Option Char}
    (before : previous.any isLineBreak = true) {context : Context}
    (restored : Context.Restored o m.style m.context context) (n : Nat) :
    Extends m.latest m.lines (m.run o n text)
      ((startAt m.style text previous true context).run o n text) := by
  have abreast := h.abreast breaks ends before restored
  have waiting : Extends m.latest m.lines m (startAt m.style text previous true context) :=
    ⟨rfl, rfl, by rw [style_finish, style_finish, abreast.after.1]; rfl⟩
  rcases Nat.eq_zero_or_pos n with rfl | positive
  · exact waiting
  cases text with
  | nil => cases n <;> exact waiting
  | cons c rest =>
    have alike := (abreast.alike (c :: rest) (c :: rest)).run_same n
    rw [abreast.run_anew positive (List.cons_ne_nil c rest)] at alike
    exact alike.extends

end Machine

end CssHighlight
