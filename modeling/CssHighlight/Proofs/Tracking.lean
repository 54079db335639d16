import CssHighlight.Proofs.Accounting
import CssHighlight.Proofs.Painting
import CssHighlight.Proofs.Spelling

/-!
# The nesting and the styles

In a dialect without interpolations the nesting that a scan keeps follows from the styles of the
characters that it has taken. Only punctuation changes it, and what a parenthesis does is told by
the name that was styled in front of it.
-/
namespace CssHighlight

/-- The nesting that a context keeps. -/
def Context.nesting (x : Context) : Nesting :=
  ⟨x.mathDepth, x.parenDepth, x.selectorDepth, x.inBrackets⟩

/-- No character of the dialect opens an interpolation. -/
def Dialect.Plain (dialect : Dialect) : Prop :=
  dialect = .standard ∨ dialect = .hss

theorem Dialect.Plain.leads {dialect : Dialect} (plain : dialect.Plain) (c : Char) :
    leadsInterpolation dialect c = false := by
  rcases plain with rfl | rfl <;> simp [leadsInterpolation]

section Entries

variable {keywords : KeywordSet} {seen older : List Char} {painted : List Style}
  {style style' : Style} {c : Char}

theorem nestingOf_cons_other (other : style ≠ .operator) (before : List (Char × Style)) :
    nestingOf keywords ((c, style) :: before) = nestingOf keywords before := by
  rw [nestingOf, if_neg other]

theorem nestingOf_cons_operator (before : List (Char × Style)) :
    nestingOf keywords ((c, .operator) :: before) =
      (nestingOf keywords before).track (parenKind keywords before) c :=
  if_pos rfl

/-- A run that is no punctuation changes nothing. -/
theorem nestingOf_zip_replicate (other : style ≠ .operator) (count : Nat) (seen : List Char)
    (painted : List Style) : nestingOf keywords (seen.zip (List.replicate count style ++ painted)) =
      nestingOf keywords ((seen.drop count).zip painted) := by
  induction count generalizing seen with
  | zero => rfl
  | succ count ih =>
    cases seen with
    | nil => rfl
    | cons c seen =>
      rw [List.replicate_succ, List.cons_append, List.zip_cons_cons, nestingOf_cons_other other,
        List.drop_succ_cons, ih]

/-- Nothing leads a parenthesis behind a character of another style. -/
theorem parenKind_other {entries : List (Char × Style)}
    (other : ∀ style, (entries.map Prod.snd).head? = some style → style.leadsParen = false) :
    parenKind keywords entries = .plain := by
  cases entries with
  | nil => rfl
  | cons entry before =>
    obtain ⟨c, style⟩ := entry
    have plain := other style rfl
    unfold parenKind
    split <;> simp_all [Style.leadsParen]

theorem takeWhile_zip_replicate (word : List Char) (other : painted.head? ≠ some style) :
    (((word ++ older).zip (List.replicate word.length style ++ painted)).takeWhile
      fun entry => entry.2 == style).map Prod.fst = word := by
  induction word with
  | nil =>
    cases older with
    | nil => rfl
    | cons x older =>
      cases painted with
      | nil => rfl
      | cons first painted =>
        have differs : first ≠ style := by simpa using other
        simp [differs]
  | cons c word ih =>
    simp only [List.cons_append, List.length_cons, List.replicate_succ, List.zip_cons_cons,
      List.takeWhile_cons, beq_self_eq_true, if_true, List.map_cons, ih]

/-- The name of a function tells the kind of the parenthesis behind it. -/
theorem parenKind_function {word : List Char} (nonempty : word ≠ [])
    (other : painted.head? ≠ some .function) :
    parenKind keywords ((word ++ older).zip (List.replicate word.length .function ++ painted)) =
      if keywords.mathFunction.containsPrefixed "(" (lowerName word.reverse) then .math
      else .plain := by
  have run := @takeWhile_zip_replicate older painted _ word other
  obtain ⟨x, word, rfl⟩ := List.exists_cons_of_ne_nil nonempty
  simp only [List.cons_append, List.length_cons, List.replicate_succ, List.zip_cons_cons] at run ⊢
  simp only [parenKind, run]

/-- So does the name of a pseudo-class, which goes back to its colon. -/
theorem parenKind_pseudoClass {name : List Char} (plain : ':' ∉ name)
    (size : older.length = painted.length) :
    parenKind keywords ((name ++ ':' :: older).zip
        (List.replicate (name.length + 1) .pseudoClass ++ painted)) =
      if (bareName 1 (lowerName (':' :: name.reverse))).any selectorPseudoClasses.contains then
        .selectors
      else .plain := by
  have chars : ((name ++ ':' :: older).zip
      (List.replicate (name.length + 1) Style.pseudoClass ++ painted)).map Prod.fst =
        name ++ ':' :: older :=
    List.map_fst_zip (by simp [size]; omega)
  have run : (name ++ ':' :: older).takeWhile (· != ':') = name := by
    rw [List.takeWhile_append_of_pos (by
      intro x member
      refine bne_iff_ne.mpr ?_
      rintro rfl
      exact plain member)]
    simp
  have first : ∃ x before, (name ++ ':' :: older).zip
      (List.replicate (name.length + 1) Style.pseudoClass ++ painted) =
        (x, .pseudoClass) :: before := by
    cases name <;> exact ⟨_, _, rfl⟩
  obtain ⟨x, before, cut⟩ := first
  rw [cut] at chars ⊢
  simp only [parenKind, chars, run]

end Entries

namespace Context

variable {x y : Context} {kind : ParenKind}

/-- A parenthesis that is punctuation enters what its kind says. -/
theorem enter_nesting (mathDepth : y.mathDepth = x.mathDepth)
    (parenDepth : y.parenDepth = x.parenDepth) (inBrackets : y.inBrackets = x.inBrackets)
    (selectorDepth : y.selectorDepth =
      if kind = .selectors then min (x.selectorDepth + 1) maxSelectorDepth else x.selectorDepth)
    (mathPending : y.mathPending = decide (kind = .math)) (named : kind ≠ .address) :
    y.unfold.enterParen.enterMath.nesting = x.nesting.enter kind := by
  simp only [enterMath, enterParen, unfold, mathDepth, mathPending, decide_eq_true_eq,
    Nesting.enter, nesting, named, ne_eq, not_false_eq_true, true_and]
  split <;> simp [parenDepth, inBrackets, selectorDepth]

theorem enter_lastStyle (x : Context) (style : Style) :
    (Context.unfold { x with lastStyle := style }).enterParen.enterMath.nesting =
      x.unfold.enterParen.enterMath.nesting := by
  by_cases deeper : x.mathDepth ≠ 0 ∨ x.mathPending = true
  · rw [enterMath, enterMath, if_pos (by exact deeper), if_pos (by exact deeper)]
    rfl
  · rw [enterMath, enterMath, if_neg (by exact deeper), if_neg (by exact deeper)]
    rfl

/-- Contexts of which neither the brackets nor the interpolation differ. -/
structure Unbroken (x : Context) (found : Style × Context) : Prop where
  inBrackets : found.2.inBrackets = x.inBrackets
  interpolation : found.2.interpolation = x.interpolation

theorem classifyName_unbroken (name : Option String) (e : RunEnd) (x : Context) :
    Unbroken x (classifyName name e x) := by
  unfold classifyName
  refine iteInduction (fun _ => ?_) fun _ => ?_
  · split <;> exact ⟨rfl, rfl⟩
  iterate 10 refine iteInduction (fun _ => ⟨rfl, rfl⟩) fun _ => ?_
  exact iteInduction (fun _ => ⟨rfl, rfl⟩) fun _ => ⟨rfl, rfl⟩

theorem classifyRun_unbroken (style : Style) (name : Option String) (e : RunEnd) (x : Context) :
    Unbroken x (classifyRun style name e x) := by
  unfold classifyRun
  split
  · exact classifyName_unbroken name e x
  · exact ⟨rfl, rfl⟩
  · simp only [classifyPseudoClass]
    refine iteInduction (fun _ => ?_) fun _ => ⟨rfl, rfl⟩
    split <;> exact ⟨rfl, rfl⟩
  · exact ⟨rfl, rfl⟩
  · exact ⟨rfl, rfl⟩

end Context

namespace Machine

/-- The nesting that the machine keeps follows from the styles, and no interpolation is open. -/
structure Tracks (o : ScanOptions) (seen : List Char) (m : Machine) : Prop where
  nesting : m.context.nesting = nestingOf o.keywords (seen.zip m.latest)
  closed : m.context.interpolation = none
  free : m.style = .operator → m.held = 0

/-- What holds of a machine that is about to take `c`. -/
structure Tracking (o : ScanOptions) (seen : List Char) (c : Char) (m : Machine) : Prop where
  nesting : m.context.nesting = nestingOf o.keywords ((c, m.style) :: seen.zip m.latest)
  closed : m.context.interpolation = none
  free : m.style = .operator → m.held = 0

/-- The context `x` in front of a token at `c`: a name may have prepared it for a parenthesis. -/
structure Awaits (keywords : KeywordSet) (entries : List (Char × Style)) (c : Char) (x : Context) :
    Prop where
  other : c ≠ '(' → x.nesting = nestingOf keywords entries
  paren : c = '(' → x.unfold.enterParen.enterMath.nesting =
    (nestingOf keywords entries).enter (parenKind keywords entries)
  closed : x.interpolation = none

section Tracking

variable {o : ScanOptions} {seen : List Char} {c : Char} {rest text : List Char} {m m' : Machine}

/-- A character that is no punctuation changes nothing. -/
theorem Tracking.of_other (other : m.style ≠ .operator)
    (nesting : m.context.nesting = nestingOf o.keywords (seen.zip m.latest))
    (closed : m.context.interpolation = none) : Tracking o seen c m :=
  ⟨nesting.trans (nestingOf_cons_other other _).symm, closed, fun same => absurd same other⟩

theorem Tracking.take (h : Tracking o seen c m)
    (base : ∀ style, m.after = some style → style.isBase = true) :
    Tracks o (c :: seen) (m.take o c rest) := by
  have kept : (m.take o c rest).context.nesting = m.context.nesting ∧
      (m.take o c rest).context.interpolation = none := by
    rw [context_take]
    unfold Context.remember
    split <;> split <;> first | exact ⟨rfl, rfl⟩ | exact ⟨rfl, h.closed⟩
  refine ⟨?_, kept.2, fun operator => ?_⟩
  · rw [kept.1, latest_take, List.zip_cons_cons, h.nesting]
  · cases take_taken o c rest m with
    | released _ waits same =>
      have base := base _ waits
      rw [← same, operator] at base
      cases base
    | goesOn _ same _ held =>
      rw [held]
      exact h.free (same ▸ operator)

/-! ### Tokens -/

theorem Opening.tracks {x context : Context} {style : Style} {count : Nat}
    (opens : Opening c rest x style count context) :
    context.nesting = x.nesting ∧ context.interpolation = x.interpolation ∧ style ≠ .operator ∧
      c ≠ '(' := by
  have other : c ≠ '(' := by
    rintro rfl
    cases opens with
    | htmlOpen word | htmlClose word =>
      obtain ⟨behind, cut⟩ := word
      cases cut
    | number first => revert first; decide
    | unicodeRange first => revert first; decide
    | name first => cases first
    | _ => simp_all
  have wide := opens.quiet.2.2
  cases opens <;> exact ⟨rfl, rfl, wide, other⟩

/-- Punctuation does to the context what it does to the nesting of the styles. -/
theorem punctuate_tracking (plain : o.dialect.Plain) (operator : m.style = .operator)
    (fresh : m.runLength = 0) (held : m.held = 0)
    (awaits : Awaits o.keywords (seen.zip m.latest) c m.context) :
    Tracking o seen c (m.punctuate o c) := by
  have closed := awaits.closed
  -- What is read of the styles in front of `c`, and what `c` does to it.
  have mark {f : Context → Context} (nesting : (f m.context).nesting =
        (nestingOf o.keywords (seen.zip m.latest)).track
          (parenKind o.keywords (seen.zip m.latest)) c)
      (closed : (f m.context).interpolation = none) : Tracking o seen c (m.update f) := by
    refine ⟨?_, closed, fun _ => held⟩
    show (f m.context).nesting = nestingOf o.keywords ((c, m.style) :: seen.zip m.latest)
    rw [operator, nestingOf_cons_operator, nesting]
  have same (other : c ≠ '(') (quiet : ∀ x : Nesting,
      x.track (parenKind o.keywords (seen.zip m.latest)) c = x) : Tracking o seen c m :=
    mark (f := id) (by rw [quiet]; exact awaits.other other) closed
  have sign (other : c ≠ '(') (quiet : ∀ x : Nesting,
      x.track (parenKind o.keywords (seen.zip m.latest)) c = x) :
      Tracking o seen c (if m.context.joinsOperands then m.restyle .operatorInCalc else m) := by
    split
    · refine .of_other (by rintro ⟨⟩) ?_ closed
      have latest : (m.restyle .operatorInCalc).latest = m.latest := by
        simp [Machine.latest, Machine.restyle, fresh]
      rw [latest]
      exact awaits.other other
    · exact same other quiet
  have previous : m.previous.any (leadsInterpolation o.dialect) = false := by
    cases m.previous with
    | none => rfl
    | some x => exact plain.leads x
  unfold punctuate
  split
  -- Braces.
  · rw [if_neg (by simp [previous])]
    exact mark (f := fun x => x.unfold.newBlock) rfl closed
  · split
    next inner open_ =>
      rw [closed] at open_
      cases open_
    next => exact mark (f := fun x => x.refold.newBlock) rfl closed
  -- Brackets and parentheses.
  · refine mark (f := fun x => { x.unfold with inBrackets := true }) ?_ closed
    rw [← awaits.other (by decide)]
    rfl
  · refine mark (f := fun x => { x.refold with inBrackets := false }) ?_ closed
    rw [← awaits.other (by decide)]
    rfl
  · refine mark (f := fun x => x.unfold.enterParen.enterMath) (awaits.paren rfl) ?_
    unfold Context.enterMath
    split <;> exact closed
  · refine mark (f := fun x => x.refold.leaveParen) ?_ closed
    rw [← awaits.other (by decide)]
    rfl
  -- The colon and the semicolon of a declaration.
  · split
    · exact mark (f := fun x => { x with inValue := true }) (awaits.other (by decide)) closed
    · exact same (by decide) fun _ => rfl
  · split
    · exact mark (f := fun x => { x with inValue := false }) (awaits.other (by decide)) closed
    · exact same (by decide) fun _ => rfl
  -- Arithmetic signs.
  iterate 4 exact sign (by decide) fun _ => rfl
  next =>
    refine same (by assumption) fun x => ?_
    unfold Nesting.track
    split <;> simp_all

theorem TokenRule.tracking (rule : TokenRule o c rest m m') (plain : o.dialect.Plain)
    (blank : m.style = .default) (held : m.held = 0)
    (awaits : Awaits o.keywords (seen.zip m.latest) c m.context) : Tracking o seen c m' := by
  cases rule with
  | blank _ dull =>
    have other : c ≠ '(' := by
      rintro rfl
      cases dull
    exact .of_other (by simp [blank]) (awaits.other other) awaits.closed
  | @blockComment style block slash =>
    have wide : style ≠ .operator := by
      rintro rfl
      cases block
    exact .of_other wide (awaits.other (by simp [slash])) awaits.closed
  | token opens =>
    obtain ⟨nesting, interpolation, wide, other⟩ := opens.tracks
    exact .of_other wide (nesting.trans (awaits.other other)) (interpolation.trans awaits.closed)
  | punctuation => exact punctuate_tracking plain rfl rfl held awaits

/-! ### Names -/

theorem isClassified_of_leadsParen (dialect : Dialect) {style : Style} (live : style.isLive = true)
    (leads : style.leadsParen = true) : isClassified dialect style = true := by
  revert live leads
  cases style <;> simp [Style.isLive, Style.leadsParen, isClassified]

theorem isClassified_cases {dialect : Dialect} {style : Style}
    (kind : isClassified dialect style = true) :
    style = .identifier ∨ style = .pseudoClass ∨ style = .pseudoElement ∨ dialect = .less := by
  revert kind
  cases style <;> simp [isClassified]

theorem runName_eq_lowerName {word ahead : List Char} (text : m.runText = word ++ ahead)
    (length : word.length = m.runLength) : m.runName = lowerName word := by
  rw [runName, lowerName, text, ← length, List.take_left]

/-- What the name of a function does in front of its parenthesis. -/
theorem identifier_paren {e : RunEnd} (stop : e.stop = some '(')
    (keywords : e.keywords = o.keywords) (spells : Spells seen text m)
    (name : m.style = .identifier) (nonempty : m.runLength ≠ 0)
    (settled : m.context.mathPending = false) :
    (classifyName m.runName e m.context).2.unfold.enterParen.enterMath.nesting =
      m.context.nesting.enter (parenKind o.keywords (seen.zip
        (List.replicate m.runLength (classifyName m.runName e m.context).1 ++ m.painted))) := by
  obtain ⟨word, ahead, taken, length, -⟩ := spells.word (by rw [name]; rfl)
  have found : classifyName m.runName e m.context = (.function,
      if o.keywords.mathFunction.containsPrefixed "(" (lowerName word) then
        { m.context with mathPending := true }
      else m.context) := by
    rw [classifyName, if_pos stop, keywords, runName_eq_lowerName ahead length]
  have kind : parenKind o.keywords (seen.zip (List.replicate m.runLength .function ++ m.painted)) =
      if o.keywords.mathFunction.containsPrefixed "(" (lowerName word) then .math else .plain := by
    have run := @parenKind_function o.keywords (seen.drop m.runLength) m.painted word.reverse
      (by simpa [← List.length_eq_zero_iff, length] using nonempty) (spells.behind name)
    rwa [← taken, List.take_append_drop, taken, List.length_reverse, length, List.reverse_reverse]
      at run
  rw [found]
  dsimp only
  rw [kind]
  split
  · exact Context.enter_nesting rfl rfl rfl rfl rfl (by decide)
  · exact Context.enter_nesting rfl rfl rfl rfl settled (by decide)

/-- Behind a name that leads no parenthesis an ordinary one is entered. -/
theorem plain_paren {x : Context} {styles : List Style} (settled : x.mathPending = false)
    (size : styles.length = seen.length)
    (other : ∀ style, styles.head? = some style → style.leadsParen = false) :
    x.unfold.enterParen.enterMath.nesting =
      x.nesting.enter (parenKind o.keywords (seen.zip styles)) := by
  have found : parenKind o.keywords (seen.zip styles) = .plain := by
    refine parenKind_other fun style first => other style ?_
    rwa [List.map_snd_zip (Nat.le_of_eq size)] at first
  rw [found]
  exact Context.enter_nesting rfl rfl rfl rfl settled (by decide)

/-- What the name of a pseudo-class does. -/
theorem pseudoClass_paren {e : RunEnd} (stop : e.stop = some '(')
    (keywords : e.keywords = o.keywords) (spells : Spells seen text m)
    (name : m.style = .pseudoClass) (nonempty : m.runLength ≠ 0)
    (size : m.latest.length = seen.length) (settled : m.context.mathPending = false) :
    (classifyPseudoClass m.runName e m.context).2.unfold.enterParen.enterMath.nesting =
      m.context.nesting.enter (parenKind o.keywords (seen.zip
        (List.replicate m.runLength (classifyPseudoClass m.runName e m.context).1 ++
          m.painted))) := by
  -- In front of the colon the name of the pseudo-class is cut off, whatever stands there.
  have behind : (seen.drop m.runLength).length = m.painted.length := by
    simp only [latest, List.length_append, List.length_replicate] at size
    rw [List.length_drop]
    omega
  have kind : parenKind o.keywords
      (seen.zip (List.replicate m.runLength .pseudoClass ++ m.painted)) =
      if (bareName 1 m.runName).any selectorPseudoClasses.contains then .selectors
      else .plain := by
    obtain ⟨word, ahead, taken, length, coloned⟩ := spells.word (by rw [name]; rfl)
    cases word with
    | nil => exact absurd length.symm nonempty
    | cons x word =>
      obtain ⟨rfl, inside⟩ := coloned name
      have cut : word.reverse ++ ':' :: seen.drop m.runLength = seen := by
        rw [List.append_cons, ← List.reverse_cons, ← taken, List.take_append_drop]
      have run := @parenKind_pseudoClass o.keywords (seen.drop m.runLength) m.painted word.reverse
        (by simpa using inside) behind
      rwa [cut, List.length_reverse, List.reverse_reverse, ← runName_eq_lowerName ahead length,
        ← List.length_cons, length] at run
  simp only [classifyPseudoClass, keywords, stop, true_and]
  by_cases known : o.keywords.pseudoClass.containsPrefixed "(" (bareName 1 m.runName) = true
  · simp only [if_pos known, kind]
    split
    · exact Context.enter_nesting rfl rfl rfl rfl settled (by decide)
    · exact Context.enter_nesting rfl rfl rfl rfl settled (by decide)
  · simp only [if_neg known]
    refine plain_paren settled ?_ ?_
    · simpa [latest] using size
    · obtain ⟨n, length⟩ := Nat.exists_eq_succ_of_ne_zero nonempty
      simp [length, List.replicate_succ, Style.leadsParen]

/-- Behind a run that is no name the context awaits an ordinary parenthesis. -/
theorem Awaits.ordinary {x : Context} {styles : List Style}
    (nesting : x.nesting = nestingOf o.keywords (seen.zip styles)) (closed : x.interpolation = none)
    (settled : x.mathPending = false) (size : styles.length = seen.length)
    (other : ∀ style, styles.head? = some style → style.leadsParen = false) :
    Awaits o.keywords (seen.zip styles) c x where
  other := fun _ => nesting
  paren := fun _ => nesting ▸ plain_paren settled size other
  closed := closed

/-- A run that was classified has left the nesting alone, but for the parenthesis that it leads. -/
theorem classified_awaits {e : RunEnd} (stop : e.stop = some c)
    (kind : isClassified o.dialect m.style = true) (keywords : e.keywords = o.keywords)
    (h : Tracks o seen m) (spells : Spells seen text m) (ready : Ready seen m)
    (plain : o.dialect.Plain) :
    Awaits o.keywords (seen.zip (List.replicate m.runLength
      (classifyRun m.style m.runName e m.context).1 ++ m.painted)) c
      (classifyRun m.style m.runName e m.context).2 := by
  have classifies := Context.classifyRun_classifies m.style m.runName e m.context
  have unbroken := Context.classifyRun_unbroken m.style m.runName e m.context
  obtain ⟨wide, wide'⟩ := @classified_ne_operator o m.runName e m.context m.style kind
  have same : m.context.nesting = nestingOf o.keywords (seen.zip (List.replicate m.runLength
      (classifyRun m.style m.runName e m.context).1 ++ m.painted)) := by
    rw [nestingOf_zip_replicate wide', h.nesting, latest, nestingOf_zip_replicate wide]
  have nonempty : m.runLength ≠ 0 := fun empty => by
    have base := ready.short empty
    revert kind base
    cases m.style <;> simp [isClassified, Style.isBase, Style.isQuoted]
  refine ⟨fun other => Eq.trans ?_ same, ?_, unbroken.interpolation.trans h.closed⟩
  · have selectors : (classifyRun m.style m.runName e m.context).2.selectorDepth =
        m.context.selectorDepth := by
      refine classifies.selectorDepth.resolve_right fun paren => other ?_
      exact Option.some.inj (stop.symm.trans paren.1)
    simp only [Context.nesting, classifies.mathDepth, classifies.parenDepth, selectors,
      unbroken.inBrackets]
  · rintro rfl
    rw [← same]
    -- What is classified is a name, a pseudo-class or a pseudo-element; the at-rules that are
    -- classified too belong to a dialect with interpolations.
    rcases isClassified_cases kind with name | name | name | less
    · rw [name]
      exact identifier_paren stop keywords spells name nonempty ready.settled
    · rw [name]
      exact pseudoClass_paren stop keywords spells name nonempty ready.size ready.settled
    · obtain ⟨n, length⟩ := Nat.exists_eq_succ_of_ne_zero nonempty
      rw [name]
      refine plain_paren (x := m.context) ready.settled ?_ ?_
      · simpa [latest] using ready.size
      · rw [length, List.replicate_succ]
        simp only [classifyRun, classifyPseudoElement]
        split <;> simp [Style.leadsParen]
    · rcases plain with same | same <;> rw [same] at less <;> cases less

/-- A run ends, and the context awaits a parenthesis of the kind that the run now shows. -/
theorem Ending.awaits {style : Style} {context : Context} (ends : Ending o c m style context)
    (h : Tracks o seen m) (spells : Spells seen (c :: rest) m) (ready : Ready seen m)
    (plain : o.dialect.Plain) : Awaits o.keywords
      (seen.zip (m.endAs style context (c :: rest)).latest) c
      (m.endAs style context (c :: rest)).context := by
  have ordinary (unnamed : isClassified o.dialect m.style = false) (style : Style)
      (first : m.latest.head? = some style) : style.leadsParen = false := by
    refine Bool.eq_false_iff.mpr fun leads => ?_
    have same := spells.latest style first leads
    rw [isClassified_of_leadsParen o.dialect ready.live (same ▸ leads)] at unnamed
    cases unnamed
  rw [endAs, latest_start]
  cases ends with
  | plain left other unnamed =>
    exact .ordinary h.nesting h.closed ready.settled ready.size (ordinary unnamed)
  | run other unnamed =>
    exact .ordinary h.nesting h.closed ready.settled ready.size (ordinary unnamed)
  | @classified name e stop kind own keywords =>
    subst own
    have found := classified_awaits stop kind keywords h spells ready plain
    exact ⟨found.other, fun paren => (Context.enter_lastStyle _ _).trans (found.paren paren),
      found.closed⟩

/-! ### Runs -/

theorem RunRule.tracking (rule : RunRule o c rest m m') (h : Tracks o seen m)
    (spells : Spells seen (c :: rest) m) (ready : Ready seen m) (plain : o.dialect.Plain) :
    Tracking o seen c m' := by
  cases rule with
  | stays left wide => exact .of_other wide h.nesting h.closed
  | blank blank =>
    refine (startToken_rule ready.held).tracking plain blank ready.held
      (.ordinary h.nesting h.closed ready.settled ready.size fun style first => ?_)
    refine Bool.eq_false_iff.mpr fun leads => ?_
    rw [← spells.latest style first leads, blank] at leads
    cases leads
  | dimension number =>
    refine .of_other (by rintro ⟨⟩) ?_ h.closed
    show m.context.nesting = nestingOf o.keywords
      (seen.zip (List.replicate m.runLength .dimension ++ m.painted))
    rw [nestingOf_zip_replicate (by rintro ⟨⟩), h.nesting, latest,
      nestingOf_zip_replicate (by simp [number])]
  | percent number => exact .of_other (by simp [thenStart, number]) h.nesting h.closed
  | commentEnd block =>
    refine .of_other ?_ h.nesting h.closed
    intro operator
    rw [show m.style = .operator from operator] at block
    cases block
  | escape => exact .of_other (by rintro ⟨⟩) h.nesting h.closed
  | quoteEnd quote =>
    refine .of_other ?_ h.nesting h.closed
    intro operator
    have quoted := isQuoted_of_closingQuote quote
    rw [show m.style = .operator from operator] at quoted
    cases quoted
  | interpolation quoted brace leads =>
    rw [plain.leads] at leads
    cases leads
  | address name paren =>
    -- The word in front keeps its style, by which the parenthesis is known as that of an address.
    subst paren
    refine ⟨?_, h.closed, fun _ => ready.held⟩
    have nonempty : m.runLength ≠ 0 := fun empty => by
      have base := ready.short empty
      rw [name] at base
      cases base
    obtain ⟨n, length⟩ := Nat.exists_eq_succ_of_ne_zero nonempty
    have kind : parenKind o.keywords (seen.zip m.latest) = .address := by
      obtain ⟨word, -, -, size, -⟩ := spells.word (by rw [name]; rfl)
      have behind : seen ≠ [] := by
        rintro rfl
        have size := ready.size
        simp [latest, length] at size
      obtain ⟨x, older, rfl⟩ := List.exists_cons_of_ne_nil behind
      simp only [latest, length, name, List.replicate_succ, List.cons_append, List.zip_cons_cons,
        parenKind]
    show _ = nestingOf o.keywords (('(', .operator) :: seen.zip m.latest)
    rw [nestingOf_cons_operator, kind, ← h.nesting]
    rfl
  | @token style context ends =>
    exact (@startToken_rule o c rest (m.endAs style context (c :: rest)) ready.held).tracking plain
      rfl ready.held (ends.awaits h spells ready plain)

/-- The nesting follows from the styles when a character was looked at. -/
theorem Ready.tracking (ready : Ready seen m) (h : Tracks o seen m)
    (spells : Spells seen (c :: rest) m) (plain : o.dialect.Plain) :
    Tracking o seen c (m.look o c rest) := by
  have rule := @look_rule o c rest m
  generalize m.look o c rest = m' at rule ⊢
  cases rule with
  | digit left escape => exact .of_other (by simp [update, escape]) h.nesting h.closed
  | resumes left escape rule =>
    have quoted := ready.escape escape
    have restarted : Tracks o seen
        ((m.update (Context.withDigits left)).start m.context.escape.outer (c :: rest)) := by
      refine ⟨?_, h.closed, fun _ => ready.held⟩
      rw [latest_start]
      exact h.nesting
    exact rule.tracking restarted (spells.restart escape quoted)
      ((ready.count fun _ => left).restart quoted (c :: rest)) plain
  | runs other rule => exact rule.tracking h spells ready plain

theorem Tracks.step (steady : Steady o seen (c :: rest) m) (spells : Spells seen (c :: rest) m)
    (plain : o.dialect.Plain) (h : Tracks o seen m) : Tracks o (c :: seen) (m.step o c rest) := by
  unfold Machine.step
  split
  next free =>
    have ready : Ready seen m := { steady with held := free, after := steady.idle free }
    exact (ready.tracking h spells plain).take (@Ready.look o seen c rest m ready).after
  next busy =>
    have other : m.style ≠ .operator := fun operator => busy (h.free operator)
    have tracking : Tracking o seen c { m with held := m.held - 1 } :=
      .of_other other h.nesting h.closed
    exact tracking.take steady.after

theorem Tracks.run (n : Nat) {text : List Char} (steady : Steady o seen text m)
    (spells : Spells seen text m) (plain : o.dialect.Plain) (h : Tracks o seen m) :
    Tracks o ((text.take n).reverse ++ seen) (m.run o n text) := by
  induction n generalizing seen text m with
  | zero => exact h
  | succ n ih =>
    cases text with
    | nil => exact h
    | cons c rest =>
      simpa [Machine.run] using ih steady.step (spells.step steady) (h.step steady spells plain)

/-- The nesting of every context of a scan follows from the characters in front and their styles. -/
theorem nesting_scanned (plain : o.dialect.Plain) (n : Nat) (text : List Char) :
    (scanned o n text).context.nesting =
      nestingOf o.keywords ((text.take n).reverse.zip (scanned o n text).latest) := by
  have fresh : Tracks o [] (fresh text) := ⟨rfl, rfl, by rintro ⟨⟩⟩
  have tracks := fresh.run n (steady_fresh o text) (spells_fresh text) plain
  rw [List.append_nil] at tracks
  exact tracks.nesting

end Tracking

end Machine

end CssHighlight
