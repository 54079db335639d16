import CssHighlight.Proofs.Fitting
import CssHighlight.Proofs.Scanned

/-!
# What becomes of a run

A rule touches the styles of one run only, the one in progress: the run goes on, perhaps as a
dimension, or it ends, and a name gets the style that was found for it. Behind the run nothing
changes any more.
-/
namespace CssHighlight

/-- The styles of runs that are classified at their end, and those that they may get there. -/
def Style.ofRun : Style → Bool
  | .atRule | .pseudoClass | .unknownPseudoClass | .pseudoElement | .unknownPseudoElement => true
  | style => style.isName

namespace Machine

variable {o : ScanOptions} {seen : List Char} {c : Char} {rest text : List Char}
  {m m' m'' : Machine}

/-- The styles that the run in progress may have behind the rule for `c`. -/
inductive Becomes (o : ScanOptions) (c : Char) (m : Machine) : Style → Prop
  | same : Becomes o c m m.style
  | dimension (number : m.style = .number) : Becomes o c m .dimension
  | classified {name : Option String} {e : RunEnd} (stop : e.stop = some c)
      (kind : isClassified o.dialect m.style = true) :
      Becomes o c m (classifyRun m.style name e m.context).1

/-- The run in progress goes on or ends, and nothing behind it changes. -/
inductive Repainted (o : ScanOptions) (c : Char) (m m' : Machine) : Prop
  | goesOn (becomes : Becomes o c m m'.style) (runLength : m'.runLength = m.runLength)
      (painted : m'.painted = m.painted)
  | ends {style : Style} (becomes : Becomes o c m style) (runLength : m'.runLength = 0)
      (painted : m'.painted = List.replicate m.runLength style ++ m.painted)

/-- A run that ended is left alone by what starts behind it. -/
theorem Repainted.behind {style : Style} (h : Repainted o c m m') (fresh : m.runLength = 0)
    (becomes : Becomes o c m'' style)
    (painted : m.painted = List.replicate m''.runLength style ++ m''.painted) :
    Repainted o c m'' m' := by
  cases h with
  | goesOn _ runLength same => exact .ends becomes (runLength.trans fresh) (same.trans painted)
  | ends _ runLength same =>
    refine .ends becomes runLength ?_
    rw [same, fresh, List.replicate_zero, List.nil_append, painted]

theorem TokenRule.repainted (rule : TokenRule o c rest m m') : Repainted o c m m' := by
  cases rule with
  | blank => exact .goesOn .same rfl rfl
  | blockComment => exact .ends .same rfl rfl
  | token => exact .ends .same rfl rfl
  | punctuation =>
    have taken := @punctuate_punctuated o c (m.start .operator (c :: rest))
    exact .ends .same taken.runLength taken.painted

theorem RunRule.repainted (rule : RunRule o c rest m m') (held : m.held = 0) :
    Repainted o c m m' := by
  cases rule with
  | stays => exact .goesOn .same rfl rfl
  | blank => exact (startToken_rule held).repainted
  | dimension number => exact .goesOn (.dimension number) rfl rfl
  | percent => exact .goesOn .same rfl rfl
  | commentEnd => exact .goesOn .same rfl rfl
  | escape => exact .ends .same rfl rfl
  | quoteEnd => exact .goesOn .same rfl rfl
  | interpolation => exact .ends .same rfl rfl
  | address => exact .ends .same rfl rfl
  | @token style context ends =>
    -- The run ends in the style that was found for it, and the token behind it does not matter.
    have becomes : Becomes o c m style := by
      cases ends with
      | plain => exact .same
      | run => exact .same
      | classified stop kind => exact .classified stop kind
    have rule := @startToken_rule o c rest (m.endAs style context (c :: rest)) held
    exact rule.repainted.behind rfl becomes rfl

/-- Looking at a character changes the style of the run in progress at most. -/
theorem look_repainted (held : m.held = 0) : Repainted o c m (m.look o c rest) := by
  have rule := @look_rule o c rest m
  generalize m.look o c rest = m' at rule ⊢
  cases rule with
  | digit => exact .goesOn .same rfl rfl
  | resumes _ _ rule => exact (rule.repainted held).behind rfl .same rfl
  | runs _ rule => exact rule.repainted held

/-! ### Properties of styles that no rule changes -/

/-- What a run is classified as is a name, or one of the other styles of such runs. -/
theorem ofRun_classifyRun {dialect : Dialect} {style : Style} (name : Option String) (e : RunEnd)
    (x : Context) (kind : isClassified dialect style = true) :
    style.ofRun = true ∧ (classifyRun style name e x).1.ofRun = true := by
  have ofName {style : Style} (name : style.isName = true) : style.ofRun = true := by
    revert name
    cases style <;> simp [Style.isName, Style.ofRun]
  unfold classifyRun
  split
  · exact ⟨rfl, ofName (Context.classifyName_named _ e x).name⟩
  · simp only [classifyAtRule]
    split <;> exact ⟨rfl, rfl⟩
  · simp only [classifyPseudoClass]
    repeat' split
    all_goals exact ⟨rfl, rfl⟩
  · simp only [classifyPseudoElement]
    split <;> exact ⟨rfl, rfl⟩
  · cases style <;> simp_all [isClassified]

/-- A property of styles that is the same for numbers and dimensions, and for names whatever they
are classified as. -/
structure Lasting (p : Style → Bool) : Prop where
  dimension : p .dimension = p .number
  classified : ∀ {dialect : Dialect} {style : Style} (name : Option String) (e : RunEnd)
    (x : Context), isClassified dialect style = true → p (classifyRun style name e x).1 = p style

theorem Becomes.lasting {p : Style → Bool} (lasting : Lasting p) {style : Style}
    (becomes : Becomes o c m style) : p style = p m.style := by
  cases becomes with
  | same => rfl
  | dimension number => rw [number, lasting.dimension]
  | classified _ kind => exact lasting.classified _ _ _ kind

theorem Repainted.lasting {p : Style → Bool} (lasting : Lasting p) (h : Repainted o c m m') :
    m'.latest.map p = m.latest.map p := by
  cases h with
  | goesOn becomes runLength painted =>
    simp only [latest, List.map_append, List.map_replicate, runLength, painted,
      becomes.lasting lasting]
  | ends becomes runLength painted =>
    simp only [latest, List.map_append, List.map_replicate, runLength, painted,
      becomes.lasting lasting, List.replicate_zero, List.nil_append]

/-- A step adds the style in which its character is taken. -/
theorem lasting_step {p : Style → Bool} (lasting : Lasting p) (m : Machine) :
    (m.step o c rest).latest.map p =
      p (if m.held = 0 then (m.look o c rest).style else m.style) :: m.latest.map p := by
  unfold step
  split
  next held => rw [latest_take, List.map_cons, (look_repainted held).lasting lasting]
  next => rw [latest_take]; rfl

/-- A property that lasts is settled when a character is taken. -/
theorem lasting_scanned {p : Style → Bool} (lasting : Lasting p) {k n : Nat} (le : k ≤ n)
    (text : List Char) :
    (scanned o k text).latest.map p <:+ (scanned o n text).latest.map p := by
  obtain ⟨i, rfl⟩ := Nat.exists_eq_add_of_le le
  rw [scanned_add]
  generalize scanned o k text = m, text.drop k = ahead
  induction i generalizing ahead m with
  | zero => exact List.suffix_rfl
  | succ i ih =>
    cases ahead with
    | nil => exact List.suffix_rfl
    | cons c rest =>
      refine List.IsSuffix.trans ?_ (ih (Nat.le_add_right k i) (m.step o c rest) rest)
      rw [lasting_step lasting]
      exact List.suffix_cons _ _

/-- A property that lasts holds of the style of a character, or not, as soon as it is taken. -/
theorem lasting_style {p : Style → Bool} (lasting : Lasting p) {i : Nat} {text : List Char}
    (inside : i < text.length) :
    (scanned o text.length text).styles[i]?.map p =
      (scanned o (i + 1) text).latest.head?.map p := by
  obtain ⟨later, cut⟩ := lasting_scanned (o := o) lasting inside text
  have size := @length_latest_scanned o _ text (Nat.le_refl _)
  have size' := @length_latest_scanned o _ text inside
  -- The styles come latest first, so that the one of the character stands behind the later ones.
  have count := congrArg List.length cut
  rw [List.length_append, List.length_map, List.length_map, size, size'] at count
  rw [styles_eq, List.getElem?_reverse (by omega), ← List.getElem?_map, ← cut,
    List.getElem?_append_right (by omega), ← List.head?_map, List.head?_eq_getElem?]
  congr 1
  omega

/-- Of the runs that are classified at their end, and of what they are classified as, the property
does not hold. -/
theorem Lasting.of_ofRun {p : Style → Bool} (dimension : p .dimension = p .number)
    (none : ∀ style : Style, style.ofRun = true → p style = false) : Lasting p where
  dimension := dimension
  classified := by
    intro dialect style name e x kind
    obtain ⟨before, behind⟩ := ofRun_classifyRun name e x kind
    rw [none _ before, none _ behind]

/-- Of block comments a style tells at once. -/
theorem lasting_isBlockComment : Lasting Style.isBlockComment := by
  refine .of_ofRun rfl fun style run => ?_
  revert run
  cases style <;> simp [Style.ofRun, Style.isName, Style.isBlockComment]

/-- Of what counts as a blank a style tells at once. -/
theorem lasting_isSpace : Lasting Style.isSpace := by
  refine .of_ofRun rfl fun style run => ?_
  revert run
  cases style <;> simp [Style.ofRun, Style.isName, Style.isSpace]

end Machine

end CssHighlight
