import CssHighlight.Proofs.Nesting
import CssHighlight.Proofs.Painting
import CssHighlight.Proofs.Spelling

/-!
# Runs of names

A name gets its style when its run ends, from what was noted when the run began and from what stands
behind it. What was noted is the last significant character there. So whoever finds a run in a style
that only a name is given can tell at which character it ended, and what was known there.
-/
namespace CssHighlight

namespace Style

/-- Styles of names that tell something about the text around them. -/
def isTelling : Style → Bool
  | .className | .idName | .important | .placeholder | .function | .unknownProperty => true
  | _ => false

theorem isLive_of_isTelling {style : Style} (telling : style.isTelling = true) :
    style.isLive = false := by
  revert telling
  cases style <;> simp [isTelling, isLive]

end Style

/-! ### What a style tells -/

namespace Context

/-- What the style that was found for a name tells about the context in which its run began, and
about what ended the run. -/
def Tells (name : Option String) (e : RunEnd) (x : Context) : Style → Prop
  | .className => x.before = some '.'
  | .idName => x.before = some '#'
  | .important => x.before = some '!' ∧ name = some "important"
  | .placeholder => x.before = some '%' ∧ e.dialect = .scss
  | .function => e.stop = some '('
  | .unknownProperty =>
    e.stop ≠ some '(' ∧ e.next = some ':' ∧ (x.before = some ';' ∨ x.before = some '{')
  | _ => True

/-- A style that was found for a name, together with a context, in which the last significant
character stays. -/
structure Told (name : Option String) (e : RunEnd) (x : Context) (found : Style × Context) :
    Prop where
  lastChar : found.2.lastChar = x.lastChar
  tells : Tells name e x found.1

theorem classifyName_told (name : Option String) (e : RunEnd) (x : Context) :
    Told name e x (classifyName name e x) := by
  -- One case for each rule, in the order of the rules. That of an unknown property comes behind
  -- that of a function, so that no parenthesis ends its run.
  unfold classifyName
  refine iteInduction (fun stop => ?_) fun goesOn => ?_
  · split <;> exact ⟨rfl, stop⟩
  refine iteInduction (fun important => ⟨rfl, important⟩) fun _ => ?_
  refine iteInduction (fun _ => ?_) fun _ => ?_
  · split <;> exact ⟨rfl, trivial⟩
  refine iteInduction (fun _ => ⟨rfl, trivial⟩) fun _ => ?_
  refine iteInduction (fun _ => ⟨rfl, trivial⟩) fun _ => ?_
  refine iteInduction (fun _ => ⟨rfl, trivial⟩) fun _ => ?_
  refine iteInduction (fun _ => ⟨rfl, trivial⟩) fun _ => ?_
  refine iteInduction (fun point => ⟨rfl, point⟩) fun _ => ?_
  refine iteInduction (fun hash => ⟨rfl, hash⟩) fun _ => ?_
  refine iteInduction (fun percent => ⟨rfl, percent⟩) fun _ => ?_
  refine iteInduction (fun declares => ?_) fun _ => ?_
  · split
    · exact ⟨rfl, trivial⟩
    · exact ⟨rfl, goesOn, declares⟩
  exact iteInduction (fun _ => ⟨rfl, trivial⟩) fun _ => ⟨rfl, trivial⟩

theorem lastChar_classifyRun (style : Style) (name : Option String) (e : RunEnd) (x : Context) :
    (classifyRun style name e x).2.lastChar = x.lastChar := by
  unfold classifyRun
  split
  · exact (classifyName_told name e x).lastChar
  · rfl
  · simp only [classifyPseudoClass]
    repeat' split
    all_goals rfl
  · rfl
  · rfl

/-- Only a name is classified as one. -/
theorem isTelling_classifyRun {dialect : Dialect} {style : Style} {name : Option String}
    {e : RunEnd} {x : Context} (kind : Machine.isClassified dialect style = true)
    (telling : (classifyRun style name e x).1.isTelling = true) : style = .identifier := by
  revert telling kind
  unfold classifyRun
  split
  · exact fun _ _ => rfl
  · intro _ telling
    simp only [classifyAtRule] at telling
    split at telling <;> cases telling
  · intro _ telling
    simp only [classifyPseudoClass] at telling
    split at telling <;> cases telling
  · intro _ telling
    simp only [classifyPseudoElement] at telling
    split at telling <;> cases telling
  · cases style <;> simp_all [Machine.isClassified]

end Context

namespace Machine

variable {o : ScanOptions} {seen : List Char} {c : Char} {rest : List Char} {m m' : Machine}

/-- Looked at inside a name, a character belongs to it or ends it. -/
theorem look_identifier (name : m.style = .identifier) :
    m.look o c rest = if isRunChar c then m else m.closeRun o c rest := by
  simp [look, stepRun, name]

/-! ### Where a name begins -/

/-- A name begins in front of the current character, and what was significant last is noted. -/
structure BeginsName (m m' : Machine) : Prop where
  runLength : m'.runLength = 0
  before : m'.context.before = m.context.lastChar

theorem TokenRule.begins (rule : TokenRule o c rest m m') (other : m.style ≠ .identifier)
    (name : m'.style = .identifier) : BeginsName m m' := by
  cases rule with
  | blank => exact absurd name other
  | @blockComment style block =>
    obtain rfl : style = .identifier := name
    cases block
  | @token style count context opens =>
    obtain rfl : style = .identifier := name
    cases opens with
    | lineComment kind => rcases kind with same | same <;> cases same
    | name => exact ⟨rfl, rfl⟩
  | punctuation =>
    rcases (@punctuate_punctuated o c (m.start .operator (c :: rest))).style with same | same
    · rw [same] at name
      cases name
    · rw [same.1] at name
      cases name

theorem Ending.lastChar {style : Style} {context : Context}
    (ends : Ending o c m style context) : context.lastChar = m.context.lastChar := by
  cases ends with
  | plain | run => rfl
  | classified => exact Context.lastChar_classifyRun _ _ _ _

theorem RunRule.begins (rule : RunRule o c rest m m') (held : m.held = 0)
    (other : m.style ≠ .identifier) (name : m'.style = .identifier) : BeginsName m m' := by
  cases rule with
  | stays | percent | commentEnd | quoteEnd => exact absurd name other
  -- A name begins only with a token, in front of which the run before it may have ended.
  | blank => exact (startToken_rule held).begins other name
  | dimension | escape | interpolation | address => cases name
  | @token style context ends =>
    have rule := @startToken_rule o c rest (m.endAs style context (c :: rest)) held
    obtain ⟨runLength, before⟩ := rule.begins nofun name
    exact ⟨runLength, before.trans ends.lastChar⟩

/-- A name that is in progress when a character was looked at goes on, or begins with it. -/
theorem Ready.look_name (ready : Ready seen m) (name : (m.look o c rest).style = .identifier) :
    (m.style = .identifier ∧ m.look o c rest = m) ∨ BeginsName m (m.look o c rest) := by
  by_cases own : m.style = .identifier
  · have goesOn : isRunChar c = true := ((@Ready.look o seen c rest m ready).name name).2.2
    exact .inl ⟨own, by rw [look_identifier own, if_pos goesOn]⟩
  · have rule := @look_rule o c rest m
    generalize m.look o c rest = m' at rule name
    cases rule with
    | digit => exact absurd name own
    -- What stands around an escape is a string, never a name.
    | resumes left escape rule =>
      have quoted := ready.escape escape
      have other : m.context.escape.outer ≠ .identifier := by
        intro same
        rw [same] at quoted
        cases quoted
      obtain ⟨runLength, before⟩ := rule.begins ready.held other name
      exact .inr ⟨runLength, before⟩
    | runs _ rule => exact .inr (rule.begins ready.held own name)

/-- Behind a step a name in progress goes on, with what was noted of it, or has its first
character. -/
theorem Steady.step_name (steady : Steady o seen (c :: rest) m)
    (name : (m.step o c rest).style = .identifier) :
    (m.style = .identifier ∧ (m.step o c rest).runLength = m.runLength + 1 ∧
      (m.step o c rest).context.before = m.context.before) ∨
    (m.step o c rest).runLength = 1 ∧ (m.step o c rest).context.before = m.context.lastChar := by
  -- A style that waits is not that of a name.
  have taken {m' : Machine} (name : (m'.take o c rest).style = .identifier)
      (base : ∀ style, m'.after = some style → style.isBase = true) :
      m'.style = .identifier ∧ (m'.take o c rest).runLength = m'.runLength + 1 := by
    cases take_taken o c rest m' with
    | released _ waits same =>
      have base := base _ waits
      rw [← same, name] at base
      cases base
    | goesOn _ same runLength => exact ⟨same ▸ name, runLength⟩
  unfold Machine.step at name ⊢
  split at name
  next free =>
    have ready : Ready seen m := { steady with held := free, after := steady.idle free }
    obtain ⟨looked, runLength⟩ := taken name (@Ready.look o seen c rest m ready).after
    rw [if_pos free, runLength, before_take]
    rcases ready.look_name looked with ⟨own, same⟩ | begins
    · exact .inl ⟨own, by rw [same], by rw [same]⟩
    · exact .inr ⟨by rw [begins.runLength], begins.before⟩
  next busy =>
    obtain ⟨own, -⟩ := taken name steady.after
    exact absurd (steady.name own).1 busy

/-! ### How a run got its style -/

/-- The style of a name that ends in front of `c`. -/
def nameStyle (o : ScanOptions) (c : Char) (rest : List Char) (m : Machine) : Style :=
  (classifyName m.runName
    ⟨some c, nextSolid (if c = '(' then rest else c :: rest), o.dialect, o.keywords⟩ m.context).1

/-- The rule for a character ends no run, or it ends the run in progress. A telling style is given
only to a name that ends there. -/
inductive Closes (o : ScanOptions) (c : Char) (rest : List Char) (m m' : Machine) : Prop
  | none (painted : m'.painted = m.painted)
  | run {style : Style} (painted : m'.painted = List.replicate m.runLength style ++ m.painted)
      (told : style.isTelling = true → m.style = .identifier ∧ isRunChar c = false ∧
        style = m.nameStyle o c rest)

/-- Where no run is in progress, the start of a token ends none. -/
theorem painted_startToken (held : m.held = 0) (fresh : m.runLength = 0) :
    (m.startToken o c rest).painted = m.painted := by
  cases (@startToken_rule o c rest m held).repainted with
  | goesOn _ _ painted => exact painted
  | ends _ _ painted => rw [painted, fresh, List.replicate_zero, List.nil_append]

theorem closeRun_closes (held : m.held = 0) (name : m.style = .identifier)
    (ends : isRunChar c = false) : Closes o c rest m (m.closeRun o c rest) := by
  unfold closeRun
  rw [if_pos (by rw [name]; rfl), name]
  simp only [if_true]
  refine iteInduction (fun _ => ?_) fun _ => ?_
  · exact @Closes.run _ _ _ _ _ .identifier (by rw [← name]; rfl) nofun
  · refine @Closes.run _ _ _ _ _ (m.nameStyle o c rest) ?_ fun _ => ⟨name, ends, rfl⟩
    exact painted_startToken held rfl

theorem Ready.closes (ready : Ready seen m) : Closes o c rest m (m.look o c rest) := by
  by_cases own : m.style = .identifier
  · rw [look_identifier own]
    exact iteInduction (fun _ => .none rfl) fun ends =>
      closeRun_closes ready.held own (by simpa using ends)
  · cases @look_repainted o c rest m ready.held with
    | goesOn _ _ painted => exact .none painted
    | ends becomes _ painted =>
      refine .run painted fun telling => ?_
      -- The run keeps the style that it had in progress, unless it is classified.
      cases becomes with
      | same =>
        have live := ready.live
        rw [Style.isLive_of_isTelling telling] at live
        cases live
      | dimension => cases telling
      | classified _ kind => exact absurd (Context.isTelling_classifyRun kind telling) own

/-! ### Names in a scanned text -/

section Scanned

variable (o : ScanOptions) (text : List Char)

/-- What was noted of a name in progress is the last significant character in front of its run. -/
theorem before_scanned {n : Nat} (le : n ≤ text.length)
    (name : (scanned o n text).style = .identifier) :
    ∃ start, start + (scanned o n text).runLength = n ∧
      (scanned o n text).context.before = (scanned o start text).context.lastChar := by
  induction n with
  | zero => cases name
  | succ n ih =>
    have ahead := List.drop_eq_getElem_cons le
    have steady := steady_scanned o n text
    rw [ahead] at steady
    rw [scanned_succ ahead] at name ⊢
    -- A run that goes on keeps its start. A run that begins starts at this character.
    rcases steady.step_name name with ⟨own, runLength, before⟩ | ⟨runLength, before⟩
    · obtain ⟨start, reach, noted⟩ := ih (Nat.le_of_succ_le le) own
      exact ⟨start, by rw [runLength]; omega, before.trans noted⟩
    · exact ⟨n, by rw [runLength], before⟩

/-- The characters from `start` up to `stop` are a name that was given a style when its run ended
at `stop`. -/
structure NamedRun (start stop : Nat) (style : Style) : Prop where
  name : (scanned o stop text).style = .identifier
  length : start + (scanned o stop text).runLength = stop
  ends : ∃ c rest, text.drop stop = c :: rest ∧ isRunChar c = false ∧
    style = (scanned o stop text).nameStyle o c rest

/-- Each of the styles that were given, the latest first, belongs to a run that was named so, if it
is a telling one. -/
def Explained (painted : List Style) : Prop :=
  ∀ i style, painted.reverse[i]? = some style → style.isTelling = true →
    ∃ start stop, start ≤ i ∧ i < stop ∧ NamedRun o text start stop style ∧
      ∀ k, start ≤ k → k < stop → painted.reverse[k]? = some style

variable {o text}

theorem Explained.append {painted : List Style} (h : Explained o text painted) {count : Nat}
    {style : Style} (run : style.isTelling = true →
      NamedRun o text painted.length (painted.length + count) style) :
    Explained o text (List.replicate count style ++ painted) := by
  intro i style' found telling
  rw [List.reverse_append, List.reverse_replicate] at found ⊢
  -- The style was there before, and so was that of its whole run, or the run is the new one.
  by_cases older : i < painted.length
  · rw [List.getElem?_append_left (by rwa [List.length_reverse])] at found
    obtain ⟨start, stop, from_, upTo, named, all⟩ := h i style' found telling
    refine ⟨start, stop, from_, upTo, named, fun k le lt => ?_⟩
    have same := all k le lt
    rw [List.getElem?_append_left (List.getElem?_eq_some_iff.mp same).1]
    exact same
  · have behind := Nat.le_of_not_lt older
    have size : painted.reverse.length = painted.length := List.length_reverse
    have given {k : Nat} (le : painted.length ≤ k) (lt : k < painted.length + count) :
        (painted.reverse ++ List.replicate count style)[k]? = some style := by
      rw [List.getElem?_append_right (by omega), size,
        List.getElem?_replicate_of_lt (by omega)]
    have upTo : i < painted.length + count := by
      have inside := (List.getElem?_eq_some_iff.mp found).1
      rw [List.length_append, List.length_replicate, size] at inside
      exact inside
    obtain rfl : style' = style := Option.some.inj (found.symm.trans (given behind upTo))
    exact ⟨_, _, behind, upTo, run telling, fun k le lt => given le lt⟩

theorem explained_painted {n : Nat} (le : n ≤ text.length) :
    Explained o text (scanned o n text).painted := by
  induction n with
  | zero => exact fun _ _ found => by cases found
  | succ n ih =>
    have ahead := List.drop_eq_getElem_cons le
    have steady := steady_scanned o n text
    have size := length_latest_scanned (o := o) (Nat.le_of_succ_le le)
    have older := ih (Nat.le_of_succ_le le)
    rw [scanned_succ ahead]
    rw [ahead] at steady
    generalize before : scanned o n text = m at steady size older
    -- What is in progress has no telling style yet.
    have taken {m' : Machine} (older : Explained o text m'.painted)
        (live : m'.style.isLive = true) :
        Explained o text (m'.take o text[n] (text.drop (n + 1))).painted := by
      cases take_taken o text[n] (text.drop (n + 1)) m' with
      | released _ _ _ _ _ _ painted =>
        rw [painted]
        refine older.append fun telling => ?_
        rw [Style.isLive_of_isTelling telling] at live
        cases live
      | goesOn _ _ _ _ _ painted => rwa [painted]
    -- Looking at the character may end a name, taking it ends only what is in progress.
    unfold Machine.step
    split
    next free =>
      have ready : Ready (text.take n).reverse m :=
        { steady with held := free, after := steady.idle free }
      refine taken ?_ (@Ready.look o _ _ _ m ready).live
      cases @Ready.closes o _ text[n] (text.drop (n + 1)) m ready with
      | none painted => rwa [painted]
      | run painted told =>
        rw [painted]
        refine older.append fun telling => ?_
        obtain ⟨name, ends, same⟩ := told telling
        have stop : m.painted.length + m.runLength = n := by
          rw [← size, latest, List.length_append, List.length_replicate, Nat.add_comm]
        rw [stop]
        subst before
        exact ⟨name, stop, _, _, ahead, ends, same⟩
    next busy => exact taken older steady.live

/-- Each telling style of a scanned text belongs to a run that was named so. -/
theorem explained_scanned (o : ScanOptions) (text : List Char) :
    Explained o text (scanned o text.length text).latest := by
  refine (explained_painted (Nat.le_refl _)).append fun telling => ?_
  have live := (steady_scanned o text.length text).live
  rw [Style.isLive_of_isTelling telling] at live
  cases live

/-! ### What is known of a named run -/

namespace NamedRun

variable {start stop : Nat} {style : Style}

theorem stop_lt (run : NamedRun o text start stop style) : stop < text.length := by
  obtain ⟨c, rest, ahead, -⟩ := run.ends
  refine Nat.lt_of_not_le fun le => ?_
  rw [List.drop_of_length_le le] at ahead
  cases ahead

/-- The characters that were taken last are those of the run. -/
theorem taken_eq (run : NamedRun o text start stop style) :
    (text.take stop).reverse.take (scanned o stop text).runLength =
      ((text.take stop).drop start).reverse := by
  have whole : (text.take stop).length = stop := List.length_take_of_le (Nat.le_of_lt run.stop_lt)
  have reach := run.length
  rw [List.take_reverse, whole]
  congr 2
  omega

/-- The run is looked up under its text in lower case, unless it is too long. -/
theorem runName_eq (run : NamedRun o text start stop style) :
    (scanned o stop text).runName = if stop - start < 128 then
      some (String.ofList (Text.lowerChars ((text.take stop).drop start))) else none := by
  obtain ⟨word, ahead, taken, length, -⟩ :=
    (spells_scanned o stop text).word (by rw [run.name]; rfl)
  have reach := run.length
  have size : (scanned o stop text).runLength = stop - start := by omega
  rw [run.taken_eq, List.reverse_inj] at taken
  rw [Machine.runName, ahead, ← length, List.take_left, length, size, taken]

/-- The run holds characters of names only. -/
theorem isRunChar_of_inside (run : NamedRun o text start stop style) {i : Nat} {c : Char}
    (le : start ≤ i) (lt : i < stop) (found : text[i]? = some c) : isRunChar c = true := by
  have inRun := (fits_scanned o stop text).inRun c
  rw [run.taken_eq, run.name] at inRun
  refine inRun (List.mem_reverse.mpr (List.mem_of_getElem? (i := i - start) ?_))
  rw [List.getElem?_drop, Nat.add_sub_cancel' le, List.getElem?_take_of_lt lt, found]

/-- The character that was noted is the last significant one in front of the run. -/
theorem before_eq (run : NamedRun o text start stop style) :
    (scanned o stop text).context.before = (scanned o start text).context.lastChar := by
  obtain ⟨start', reach, noted⟩ := before_scanned o text (Nat.le_of_lt run.stop_lt) run.name
  have same := run.length
  obtain rfl : start' = start := by omega
  exact noted

end NamedRun

end Scanned

end Machine

end CssHighlight
