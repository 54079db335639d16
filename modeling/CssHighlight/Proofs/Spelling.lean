import CssHighlight.Proofs.Fitting
import CssHighlight.Proofs.Parens

/-!
# Names in front of parentheses

Behind a name that ends in front of a parenthesis the styles show where the name starts, so that
it can be read off the text again: names are not interrupted, a pseudo-class has one colon, and
no other name of a function stands directly in front of the name of a function.
-/
namespace CssHighlight

/-- The styles of names that tell the kind of the parenthesis behind them. -/
def Style.leadsParen : Style → Bool
  | .identifier | .function | .pseudoClass => true
  | _ => false

/-- A word in which a colon is the first character and no other one. -/
def Coloned : List Char → Prop
  | [] => True
  | c :: word => c = ':' ∧ ':' ∉ word

theorem Coloned.append {word : List Char} (h : Coloned word) {c : Char}
    (colon : c = ':' ↔ word = []) : Coloned (word ++ [c]) := by
  cases word with
  | nil => exact ⟨colon.mpr rfl, List.not_mem_nil⟩
  | cons x word =>
    have other : c ≠ ':' := fun same => List.cons_ne_nil x word (colon.mp same)
    refine ⟨h.1, ?_⟩
    simpa [h.2] using other.symm

/-- Only in front of a parenthesis a run is the name of a function. -/
theorem classifyRun_function {style : Style} {name : Option String} {e : RunEnd} {x : Context}
    (other : style ≠ .function) (found : (classifyRun style name e x).1 = .function) :
    e.stop = some '(' := by
  refine Decidable.byContradiction fun goesOn => ?_
  revert found
  unfold classifyRun
  split
  · exact fun found => goesOn ((Context.classifyName_named name e x).function found)
  · simp only [classifyAtRule]
    split <;> exact Style.noConfusion
  · simp only [classifyPseudoClass]
    split <;> exact Style.noConfusion
  · simp only [classifyPseudoElement]
    split <;> exact Style.noConfusion
  · exact other

namespace Machine

/-- The run in progress can be read off the text that was taken, the latest character of which
comes first. -/
structure Spelled (seen ahead : List Char) (m : Machine) : Prop where
  word : m.style.leadsParen = true → ∃ word, m.runText = word ++ ahead ∧
    seen.take m.runLength = word.reverse ∧ word.length = m.runLength ∧
    (m.style = .pseudoClass → Coloned word)
  behind : m.style = .identifier → m.painted.head? ≠ some .function
  waits : m.after ≠ none → m.style.leadsParen = false

/-- What holds between two characters, in front of `text`. -/
structure Spells (seen text : List Char) (m : Machine) : Prop extends Spelled seen text m where
  latest : ∀ style, m.latest.head? = some style → style.leadsParen = true → m.style = style
  held : m.style = .pseudoClass → ':' ∉ text.take m.held

/-- What holds of a machine that is about to take `c`. -/
structure Spelling (seen : List Char) (c : Char) (rest : List Char) (m : Machine) : Prop
    extends Spelled seen (c :: rest) m where
  colon : m.style = .pseudoClass → (c = ':' ↔ m.runLength = 0)
  held : m.style = .pseudoClass → ':' ∉ rest.take m.held

section Spelling

variable {o : ScanOptions} {seen ahead : List Char} {c : Char} {rest text : List Char}
  {m m' : Machine}

theorem leadsParen_of_isBase {style : Style} (base : style.isBase = true) :
    style.leadsParen = false := by
  rcases Style.isBase_cases base with rfl | rfl | rfl | rfl <;> rfl

theorem ne_of_leadsParen {style other : Style} (leads : style.leadsParen = true)
    (plain : other.leadsParen = false) : other ≠ style := by
  rintro rfl
  rw [plain] at leads
  cases leads

/-- No name is in progress. -/
theorem Spelled.of_other (other : m.style.leadsParen = false) : Spelled seen ahead m where
  word := by simp [other]
  behind := fun same => absurd same (ne_of_leadsParen rfl other)
  waits := fun _ => other

theorem Spelling.of_other (other : m.style.leadsParen = false) : Spelling seen c rest m where
  toSpelled := .of_other other
  colon := fun same => absurd same (ne_of_leadsParen rfl other)
  held := fun same => absurd same (ne_of_leadsParen rfl other)

theorem Spelling.take (h : Spelling seen c rest m)
    (base : ∀ style, m.after = some style → style.isBase = true) :
    Spells (c :: seen) rest (m.take o c rest) := by
  cases take_taken o c rest m with
  | released free waits same =>
    -- A style that waits goes on over line breaks, and no name does.
    have other : (m.take o c rest).style.leadsParen = false := by
      rw [same]
      exact leadsParen_of_isBase (base _ waits)
    have plain := h.waits (by simp [waits])
    refine ⟨.of_other other, fun style first leads => ?_, fun same => ?_⟩
    · rw [latest_take, List.head?_cons, Option.some.injEq] at first
      exact absurd first (ne_of_leadsParen leads plain)
    · exact absurd same (ne_of_leadsParen rfl other)
  | goesOn idle same runLength held after painted runText =>
    refine ⟨⟨fun leads => ?_, fun name => ?_, fun waits => ?_⟩, fun style first _ => ?_,
      fun element => ?_⟩
    · rw [same] at leads
      obtain ⟨word, text, taken, length, colon⟩ := h.word leads
      refine ⟨word ++ [c], by simp [runText, text], ?_, by simp [runLength, length], ?_⟩
      · rw [runLength, List.take_succ_cons, taken, List.reverse_append]
        rfl
      · intro element
        rw [same] at element
        refine (colon element).append ?_
        rw [h.colon element, ← length, List.length_eq_zero_iff]
    · rw [painted]
      exact h.behind (same ▸ name)
    · rw [same]
      exact h.waits (after ▸ waits)
    · rw [latest_take, List.head?_cons, Option.some.injEq] at first
      rw [same, first]
    · rw [held]
      exact h.held (same ▸ element)

/-! ### Tokens -/

theorem Opening.spells {x context : Context} {style : Style} {count : Nat}
    (opens : Opening c rest x style count context) :
    (style = .identifier → isRunChar c = true) ∧
      (style = .pseudoClass → c = ':' ∧ ':' ∉ rest.take count) := by
  cases opens with
  | lineComment kind => rcases kind with rfl | rfl <;> exact ⟨nofun, nofun⟩
  | name first => exact ⟨fun _ => first, nofun⟩
  | pseudoClass colon next =>
    refine ⟨nofun, fun _ => ⟨colon, ?_⟩⟩
    cases rest with
    | nil => cases next
    | cons y rest =>
      have leads : isAfterLeader y = true := by simpa using next
      have other : ':' ≠ y := by
        rintro rfl
        cases leads
      simpa using other
  | _ => exact ⟨nofun, nofun⟩

/-- A token starts behind a run that is the name of a function in front of a parenthesis only. -/
theorem TokenRule.spelling (rule : TokenRule o c rest m m') (blank : m.style = .default)
    (idle : m.after = none) (behind : m.latest.head? = some .function → c = '(') :
    Spelling seen c rest m' := by
  cases rule with
  | blank => exact .of_other (by rw [blank]; rfl)
  | @blockComment style block =>
    refine .of_other ?_
    show style.leadsParen = false
    revert block
    cases style <;> simp [Style.isBlockComment, Style.leadsParen]
  | @token style count context opens =>
    obtain ⟨name, element⟩ := opens.spells
    refine ⟨⟨fun _ => ⟨[], rfl, rfl, rfl, fun _ => trivial⟩, fun same => ?_,
      fun waits => absurd idle waits⟩, fun same => ?_, fun same => (element same).2⟩
    · intro first
      have inside := name same
      rw [behind first] at inside
      cases inside
    · exact iff_of_true (element same).1 rfl
  | punctuation =>
    refine .of_other ?_
    rcases (@punctuate_punctuated o c (m.start .operator (c :: rest))).style with same | same
    · rw [same]
      rfl
    · rw [same.1]
      rfl

/-! ### Runs -/

/-- A run that ends as the name of a function ends in front of a parenthesis. -/
theorem Ending.function {style : Style} {context : Context} (ends : Ending o c m style context)
    (h : Spells seen ahead m) (live : m.style.isLive = true)
    (first : (m.endAs style context text).latest.head? = some .function) : c = '(' := by
  have other : m.style ≠ .function := by
    intro same
    rw [same] at live
    cases live
  have before : m.latest.head? ≠ some .function := fun first => other (h.latest _ first rfl)
  -- Only a classification makes a function of a run, and it asks for the parenthesis.
  cases ends with
  | plain | run => exact absurd first before
  | @classified name e stop =>
    cases length : m.runLength with
    | zero =>
      simp [endAs, latest, start, length] at first before
      exact absurd first before
    | succ k =>
      have found : (classifyRun m.style name e m.context).1 = .function := by
        simpa [endAs, latest, start, length, List.replicate_succ] using first
      exact Option.some.inj (stop.symm.trans (classifyRun_function other found))

theorem RunRule.spelling (rule : RunRule o c rest m m') (h : Spells seen (c :: rest) m)
    (held : m.held = 0) (after : m.after = none) (live : m.style.isLive = true)
    (short : m.runLength = 0 → m.style.isBase = true) : Spelling seen c rest m' := by
  cases rule with
  | stays left wide goesOn inside =>
    refine ⟨⟨h.word, h.behind, h.waits⟩, fun element => ?_, fun _ => ?_⟩
    · have element : m.style = .pseudoClass := element
      -- A run goes on with characters of names, and a colon is none.
      have run : isRunChar c = true := inside (by rw [element]; rfl)
      have some : m.runLength ≠ 0 := fun empty => by
        have base := short empty
        rw [element] at base
        cases base
      refine iff_of_false ?_ some
      rintro rfl
      cases run
    · show ':' ∉ rest.take m.held
      simp [held]
  | blank blank =>
    refine (startToken_rule held).spelling blank after fun first => ?_
    have same := h.latest _ first rfl
    rw [blank] at same
    cases same
  | dimension => exact .of_other rfl
  | percent number => exact .of_other (by simp [thenStart, number, Style.leadsParen])
  | commentEnd block =>
    refine .of_other ?_
    show m.style.leadsParen = false
    revert block
    cases m.style <;> simp [Style.isBlockComment, Style.leadsParen]
  | escape => exact .of_other rfl
  | quoteEnd quote =>
    have quoted := isQuoted_of_closingQuote quote
    exact .of_other (leadsParen_of_isBase (Style.isBase_of_isQuoted quoted))
  | interpolation => exact .of_other rfl
  | address => exact .of_other rfl
  | @token style context ends =>
    exact (@startToken_rule o c rest (m.endAs style context (c :: rest)) held).spelling rfl after
      (ends.function h live)

/-- A string starts again behind an escape sequence. -/
theorem Spells.restart (h : Spells seen text m) (escape : m.style = .escapeChar) {style : Style}
    (quoted : style.isQuoted = true) {context : Context} {ahead : List Char} :
    Spells seen text ({ m with context := context }.start style ahead) := by
  have other := leadsParen_of_isBase (Style.isBase_of_isQuoted quoted)
  refine ⟨.of_other other, fun style first leads => ?_, fun same => ?_⟩
  · rw [latest_start] at first
    have same := h.latest style first leads
    rw [escape] at same
    subst same
    cases leads
  · exact absurd same (ne_of_leadsParen rfl other)

/-- What the rule for a character leaves can be read off the text as before. -/
theorem Ready.spelling (ready : Ready seen m) (h : Spells seen (c :: rest) m) :
    Spelling seen c rest (m.look o c rest) := by
  have rule := @look_rule o c rest m
  generalize m.look o c rest = m' at rule ⊢
  cases rule with
  | digit left escape => exact .of_other (by simp [update, escape, Style.leadsParen])
  | resumes left escape rule =>
    have quoted := ready.escape escape
    exact (rule.spelling (h.restart escape quoted) ready.held ready.after
      (ready.restart quoted (c :: rest)).live) fun _ => Style.isBase_of_isQuoted quoted
  | runs plain rule => exact rule.spelling h ready.held ready.after ready.live ready.short

theorem Spells.step (steady : Steady o seen (c :: rest) m) (h : Spells seen (c :: rest) m) :
    Spells (c :: seen) rest (m.step o c rest) := by
  unfold Machine.step
  split
  next free =>
    have ready : Ready seen m := { steady with held := free, after := steady.idle free }
    exact (ready.spelling h).take (@Ready.look o seen c rest m ready).after
  next busy =>
    -- No name is in progress where a character is held, but a pseudo-class may be.
    obtain ⟨k, count⟩ := Nat.exists_eq_succ_of_ne_zero busy
    have spelled : Spelling seen c rest { m with held := m.held - 1 } := by
      refine ⟨⟨h.word, h.behind, h.waits⟩, fun element => ?_, fun element => ?_⟩
      · have element : m.style = .pseudoClass := element
        have ahead := h.held element
        rw [count, List.take_succ_cons, List.mem_cons, not_or] at ahead
        have some : m.runLength ≠ 0 := fun empty => by
          have base := steady.short empty
          rw [element] at base
          cases base
        exact iff_of_false (Ne.symm ahead.1) some
      · have ahead := h.held element
        rw [count, List.take_succ_cons, List.mem_cons, not_or] at ahead
        show ':' ∉ rest.take (m.held - 1)
        rw [count]
        exact ahead.2
    exact spelled.take steady.after

theorem spells_fresh (text : List Char) : Spells [] text (fresh text) where
  toSpelled := .of_other rfl
  latest := by rintro _ ⟨⟩
  held := by rintro ⟨⟩

theorem Spells.run (n : Nat) {text : List Char} (steady : Steady o seen text m)
    (h : Spells seen text m) :
    Spells ((text.take n).reverse ++ seen) (text.drop n) (m.run o n text) := by
  induction n generalizing seen text m with
  | zero => exact h
  | succ n ih =>
    cases text with
    | nil => exact h
    | cons c rest => simpa [Machine.run] using ih steady.step (h.step steady)

theorem spells_scanned (o : ScanOptions) (n : Nat) (text : List Char) :
    Spells (text.take n).reverse (text.drop n) (scanned o n text) := by
  simpa [scanned] using (spells_fresh text).run n (steady_fresh o text)

end Spelling

end Machine

end CssHighlight
