import CssHighlight.Proofs.Editing
import CssHighlight.Proofs.Rules

/-!
# Styles and characters

A scan colours a run when the run ends, so what a run may become is settled while it is open: its
characters are those that its style admits, whatever the style is changed to in the end.
-/
namespace CssHighlight

namespace Style

/-- The characters that a style may be given to in the end. A number may end with a percent
sign. -/
def fits (style : Style) (c : Char) : Bool :=
  style.admits c || (style == .number && c == '%')

theorem fits_of_admits {style : Style} {c : Char} (admitted : style.admits c = true) :
    style.fits c = true := by
  simp [fits, admitted]

theorem admits_of_isQuoted {style : Style} (quoted : style.isQuoted = true) (c : Char) :
    style.admits c = true := by
  revert quoted
  cases style <;> simp [isQuoted, admits]

theorem admits_of_isBlockComment {style : Style} (block : style.isBlockComment = true) (c : Char) :
    style.admits c = true := by
  revert block
  cases style <;> simp [isBlockComment, admits]

/-- The styles that a name may be classified as. -/
def isName : Style → Bool
  | .identifier | .function | .important | .property | .unknownProperty | .value => true
  | .attributeName | .className | .idName | .placeholder | .tag | .variableName => true
  | _ => false

theorem admits_of_isName {style : Style} (name : style.isName = true) {c : Char}
    (inside : isRunChar c = true) : style.admits c = true := by
  revert name
  cases style <;> simp [isName, admits, inside]

/-- Lines end in styles that go on over line breaks. -/
theorem isResting_of_fits {style : Style} {c : Char} (fitting : style.fits c = true)
    (breaks : isLineBreak c = true) : style.isResting = true := by
  rcases lineBreak_cases breaks with rfl | rfl <;> revert fitting <;> cases style <;> decide

end Style

namespace Context

/-- A style that was found for a name, together with a context. Only in front of a parenthesis it is
that of a function. -/
structure Named (stop : Option Char) (found : Style × Context) : Prop where
  name : found.1.isName = true
  function : found.1 = .function → stop = some '('

theorem classifyName_named (name : Option String) (e : RunEnd) (x : Context) :
    Named e.stop (classifyName name e x) := by
  unfold classifyName
  refine iteInduction (fun stop => ⟨rfl, fun _ => stop⟩) fun _ => ?_
  refine iteInduction (fun _ => ⟨rfl, nofun⟩) fun _ => ?_
  refine iteInduction (fun _ => ?_) fun _ => ?_
  · split <;> exact ⟨rfl, nofun⟩
  iterate 7 refine iteInduction (fun _ => ⟨rfl, nofun⟩) fun _ => ?_
  refine iteInduction (fun _ => ?_) fun _ => ?_
  · split <;> exact ⟨rfl, nofun⟩
  exact iteInduction (fun _ => ⟨rfl, nofun⟩) fun _ => ⟨rfl, nofun⟩

/-- What a run is classified as admits the characters of the run. -/
theorem admits_classifyRun {dialect : Dialect} {style : Style} (name : Option String) (e : RunEnd)
    (x : Context) {c : Char} (kind : Machine.isClassified dialect style = true)
    (admitted : style.admits c = true) : (classifyRun style name e x).1.admits c = true := by
  unfold classifyRun
  split
  · exact Style.admits_of_isName (classifyName_named name e x).name admitted
  · simp only [Style.admits, Bool.or_eq_true] at admitted
    simp only [classifyAtRule]
    split <;> simp only [Style.admits, Bool.or_eq_true] <;> grind
  · simp only [classifyPseudoClass]
    repeat' split
    all_goals exact admitted
  · simp only [classifyPseudoElement]
    split <;> exact admitted
  · exact admitted

end Context

/-- A character in front of a list of styles stands in the run at its front or behind it. -/
theorem mem_zip_replicate {seen : List Char} {count : Nat} {style : Style} {painted : List Style}
    {entry : Char × Style} (member : entry ∈ seen.zip (List.replicate count style ++ painted)) :
    (entry.1 ∈ seen.take count ∧ entry.2 = style) ∨ entry ∈ (seen.drop count).zip painted := by
  induction count generalizing seen with
  | zero => exact .inr member
  | succ count ih =>
    cases seen with
    | nil => cases member
    | cons c seen =>
      rw [List.replicate_succ, List.cons_append, List.zip_cons_cons] at member
      rw [List.take_succ_cons, List.drop_succ_cons]
      rcases List.mem_cons.mp member with rfl | other
      · exact .inl ⟨List.mem_cons_self, rfl⟩
      · exact (ih other).imp_left (And.imp_left (List.mem_cons_of_mem c))

namespace Machine

/-- The run in progress has characters that its style admits, and the styles behind it fit theirs.
The characters that were taken are given with the latest first. -/
structure Fitted (seen : List Char) (m : Machine) : Prop where
  inRun : ∀ x ∈ seen.take m.runLength, m.style.admits x = true
  painted : ∀ entry ∈ (seen.drop m.runLength).zip m.painted, entry.2.fits entry.1 = true

/-- A fitted machine between two characters, in front of `text`. -/
structure Fits (seen text : List Char) (m : Machine) : Prop extends Fitted seen m where
  held : ∀ x ∈ text.take m.held, m.style.admits x = true

/-- A fitted machine that is about to take a character, which may be the last one of a number. -/
structure Fitting (seen : List Char) (c : Char) (rest : List Char) (m : Machine) : Prop
    extends Fitted seen m where
  char : m.style.admits c = true ∨
    (m.style = .number ∧ c = '%' ∧ m.held = 0 ∧ m.after.isSome = true)
  held : ∀ x ∈ rest.take m.held, m.style.admits x = true

section Fitting

variable {o : ScanOptions} {seen : List Char} {c : Char} {rest text : List Char} {m m' : Machine}

theorem Fitted.latest (h : Fitted seen m) : ∀ entry ∈ seen.zip m.latest,
    entry.2.fits entry.1 = true := by
  intro entry member
  rcases mem_zip_replicate member with ⟨inRun, same⟩ | behind
  · rw [same]
    exact Style.fits_of_admits (h.inRun _ inRun)
  · exact h.painted entry behind

theorem Fitted.start (h : Fitted seen m) (style : Style) (text : List Char) :
    Fitted seen (m.start style text) where
  inRun := by simp [Machine.start]
  painted := h.latest

/-- A run may end in a style that admits its characters. -/
theorem Fitted.endAs (h : Fitted seen m) {style : Style}
    (wide : ∀ x, m.style.admits x = true → style.admits x = true) (context : Context)
    (text : List Char) : Fitted seen (m.endAs style context text) :=
  Fitted.start (m := { m with style := style, context := context })
    ⟨fun x member => wide x (h.inRun x member), h.painted⟩ .default text

/-- A token starts with characters that its style admits. -/
theorem Fitted.opens (h : Fitted seen m) {style : Style} {count : Nat} (f : Context → Context)
    (first : style.admits c = true) (others : ∀ x ∈ rest.take count, style.admits x = true) :
    Fitting seen c rest (((m.update f).start style (c :: rest)).hold count) :=
  { Fitted.start (m := m.update f) ⟨h.inRun, h.painted⟩ style (c :: rest) with
    char := .inl first
    held := others }

theorem Fitting.take (h : Fitting seen c rest m) : Fits (c :: seen) rest (m.take o c rest) := by
  have first : m.style.fits c = true := by
    rcases h.char with admitted | ⟨number, percent, -, -⟩
    · exact Style.fits_of_admits admitted
    · rw [number, percent]
      rfl
  cases take_taken o c rest m with
  | released _ _ _ runLength idle _ painted =>
    refine ⟨⟨?_, ?_⟩, ?_⟩
    · simp [runLength]
    · rw [runLength, painted, List.drop_zero, List.replicate_succ, List.cons_append,
        List.zip_cons_cons]
      exact List.forall_mem_cons.mpr ⟨first, h.latest⟩
    · simp [idle]
  | goesOn idle style runLength held _ painted =>
    -- A percent sign ends its number, so this character is none.
    have admitted : m.style.admits c = true := by
      refine h.char.resolve_right ?_
      rintro ⟨-, -, free, waits⟩
      rw [idle free] at waits
      cases waits
    refine ⟨⟨?_, ?_⟩, ?_⟩
    · rw [runLength, style, List.take_succ_cons]
      exact List.forall_mem_cons.mpr ⟨admitted, h.inRun⟩
    · rw [runLength, painted, List.drop_succ_cons]
      exact h.painted
    · rw [held, style]
      exact h.held

theorem isRunChar_of_isAfterLeader (leads : isAfterLeader c = true) : isRunChar c = true := by
  simp only [isAfterLeader, isRunChar, isNameChar, Bool.or_eq_true] at leads ⊢
  exact leads.imp_left .inl

theorem forall_take_one {p : Char → Bool} (found : rest.head?.any p = true) :
    ∀ x ∈ rest.take 1, p x = true := by
  cases rest with
  | nil => cases found
  | cons y rest => simpa using found

/-- A token starts with characters that its style admits. -/
theorem Opening.admits {x context : Context} {style : Style} {count : Nat}
    (opens : Opening c rest x style count context) :
    style.admits c = true ∧ ∀ y ∈ rest.take count, style.admits y = true := by
  cases opens with
  | lineComment kind =>
    rcases kind with rfl | rfl
    · exact ⟨rfl, fun _ _ => rfl⟩
    · exact ⟨rfl, fun _ _ => rfl⟩
  | singleQuoted | doubleQuoted => exact ⟨rfl, fun _ _ => rfl⟩
  | htmlOpen word | htmlClose word =>
    obtain ⟨behind, cut⟩ := word
    obtain ⟨rfl, rfl⟩ := List.cons.inj cut
    exact ⟨rfl, by simp [Style.admits]⟩
  | number first =>
    refine ⟨?_, by simp⟩
    simp only [Style.admits, isNameChar, Bool.or_eq_true, beq_iff_eq]
    rcases first with digit | point | hash
    · exact .inl (.inl (.inl (.inl (.inr digit))))
    · exact .inl (.inl (.inl (.inr point)))
    · exact .inr hash
  | unicodeRange first next =>
    refine ⟨?_, forall_take_one (by simp [next, Style.admits])⟩
    rcases first with rfl | rfl <;> rfl
  | atRule first | variableName first => exact ⟨by simp [Style.admits, first], by simp⟩
  | name first => exact ⟨first, by simp⟩
  | pseudoClass colon next =>
    refine ⟨by simp [Style.admits, colon], forall_take_one ?_⟩
    cases rest with
    | nil => cases next
    | cons y rest =>
      have inside := isRunChar_of_isAfterLeader (by simpa using next)
      simp [Style.admits, inside]
  | pseudoElement colon next third =>
    cases rest with
    | nil => cases next
    | cons y rest =>
      obtain rfl : y = ':' := by simpa using next
      refine ⟨by simp [Style.admits, colon], ?_⟩
      rw [List.take_succ_cons]
      refine List.forall_mem_cons.mpr ⟨rfl, forall_take_one ?_⟩
      cases rest with
      | nil => cases third
      | cons z rest =>
        have inside := isRunChar_of_isAfterLeader (by simpa using third)
        simp [Style.admits, inside]

/-- Punctuation stays as it was taken, but an arithmetic sign may be one of a calculation. -/
structure Punctuated (c : Char) (m m' : Machine) : Prop where
  runLength : m'.runLength = m.runLength
  painted : m'.painted = m.painted
  held : m'.held = m.held
  style : m'.style = m.style ∨
    m'.style = .operatorInCalc ∧ Style.operatorInCalc.admits c = true

theorem punctuate_punctuated (m : Machine) : Punctuated c m (m.punctuate o c) := by
  have same {m' : Machine} (runLength : m'.runLength = m.runLength)
      (painted : m'.painted = m.painted) (held : m'.held = m.held) (style : m'.style = m.style) :
      Punctuated c m m' := ⟨runLength, painted, held, .inl style⟩
  have sign (sign : Style.operatorInCalc.admits c = true) :
      Punctuated c m (if m.context.joinsOperands then m.restyle .operatorInCalc else m) := by
    split
    · exact ⟨rfl, rfl, rfl, .inr ⟨rfl, sign⟩⟩
    · exact same rfl rfl rfl rfl
  unfold punctuate
  split
  case h_9 | h_10 | h_11 | h_12 => exact sign rfl
  all_goals first | exact same rfl rfl rfl rfl | (split <;> exact same rfl rfl rfl rfl)

theorem TokenRule.fitting (rule : TokenRule o c rest m m') (h : Fitted seen m)
    (held : m.held = 0) (blank : m.style = .default) : Fitting seen c rest m' := by
  cases rule with
  | blank plain dull =>
    refine { h with char := .inl ?_, held := by simp [held] }
    simp only [isNameStart, Bool.or_eq_false_iff, decide_eq_false_iff_not, Nat.not_le] at plain
    simp [blank, Style.admits, dull, plain.2]
  | blockComment block =>
    exact h.opens Context.unfold (Style.admits_of_isBlockComment block c)
      fun x _ => Style.admits_of_isBlockComment block x
  | token opens => exact h.opens _ opens.admits.1 opens.admits.2
  | punctuation mark =>
    obtain ⟨runLength, painted, idle, style⟩ :=
      @punctuate_punctuated o c (m.start .operator (c :: rest))
    have started := h.start .operator (c :: rest)
    refine ⟨⟨?_, ?_⟩, .inl ?_, ?_⟩
    · rw [runLength]
      simp [Machine.start]
    · rw [runLength, painted]
      exact started.painted
    · rcases style with same | ⟨sign, admitted⟩
      · rw [same]
        exact mark
      · rw [sign]
        exact admitted
    · rw [idle]
      simp [Machine.start, held]

theorem Ending.admits {style : Style} {context : Context} (ends : Ending o c m style context)
    {x : Char} (admitted : m.style.admits x = true) : style.admits x = true := by
  cases ends with
  | plain | run => exact admitted
  | classified _ kind => exact Context.admits_classifyRun _ _ m.context kind admitted

/-- A colour or a number that goes on as a name holds what a dimension may hold. -/
theorem dimension_admits {x : Char} (admitted : Style.number.admits x = true) :
    Style.dimension.admits x = true := by
  simp only [Style.admits, isRunChar, Bool.or_eq_true] at admitted ⊢
  grind

theorem RunRule.fitting (rule : RunRule o c rest m m') (h : Fitted seen m) (held : m.held = 0)
    (live : m.style.isLive = true) (plain : m.style ≠ .escapeChar) : Fitting seen c rest m' := by
  cases rule with
  | stays left wide goesOn =>
    exact {
      inRun := h.inRun
      painted := h.painted
      char := .inl (goesOn live plain)
      held := by simp [update, held] }
  | blank blank => exact (startToken_rule held).fitting h held blank
  | dimension number starts =>
    refine ⟨⟨fun x member => ?_, h.painted⟩, .inl ?_, by simp [restyle, held]⟩
    · exact dimension_admits (number ▸ h.inRun x member)
    · simp only [startsName, Bool.or_eq_true, Bool.and_eq_true] at starts
      simp only [restyle, Style.admits, isRunChar, isNameChar, Bool.or_eq_true]
      grind
  | percent number sign =>
    exact ⟨⟨h.inRun, h.painted⟩, .inr ⟨number, sign, held, rfl⟩, by simp [thenStart, held]⟩
  | commentEnd block =>
    have all := Style.admits_of_isBlockComment block
    exact ⟨⟨h.inRun, h.painted⟩, .inl (all c), fun x _ => all x⟩
  | escape quoted backslash goesOn =>
    refine h.opens _ (by rw [backslash]; rfl) ?_
    cases rest with
    | nil => simp
    | cons y rest => simpa [Style.admits] using goesOn
  | quoteEnd quote =>
    have quoted := isQuoted_of_closingQuote quote
    exact ⟨⟨h.inRun, h.painted⟩, .inl (Style.admits_of_isQuoted quoted c),
      by simp [thenStart, held]⟩
  | interpolation quoted brace leads =>
    refine h.opens _ ?_ (forall_take_one (by rw [brace]; rfl))
    simp only [leadsInterpolation, Bool.or_eq_true, Bool.and_eq_true, beq_iff_eq] at leads
    rcases leads with ⟨rfl, -⟩ | ⟨rfl, -⟩ <;> rfl
  | address name paren =>
    have started := h.start .operator (c :: rest)
    exact ⟨⟨started.inRun, started.painted⟩, .inl (by rw [paren]; rfl),
      by simp [thenStart, start, update, held]⟩
  | @token style context ends =>
    have ended := h.endAs (fun x => ends.admits) context (c :: rest)
    exact (@startToken_rule o c rest (m.endAs style context (c :: rest)) held).fitting ended held
      rfl

/-- Looking at a character finds a style for it, and for what is held behind it, that fits. -/
theorem Ready.fitting (ready : Ready seen m) (h : Fitted seen m) :
    Fitting seen c rest (m.look o c rest) := by
  have rule := @look_rule o c rest m
  generalize m.look o c rest = m' at rule ⊢
  cases rule with
  | digit left escape digit =>
    have goesOn : isLineBreak c = false := by
      refine Bool.eq_false_iff.mpr fun breaks => ?_
      rcases lineBreak_cases breaks with rfl | rfl <;> cases digit
    refine ⟨⟨h.inRun, h.painted⟩, .inl ?_, by simp [update, ready.held]⟩
    simp [update, escape, Style.admits, goesOn]
  | resumes left escape rule =>
    -- Only a string or an address goes on behind an escape sequence.
    have quoted := ready.escape escape
    have live : m.context.escape.outer.isLive = true :=
      Style.isLive_of_isResting (Style.isResting_of_isBase (Style.isBase_of_isQuoted quoted))
    have plain : m.context.escape.outer ≠ .escapeChar := by
      intro same
      rw [same] at quoted
      cases quoted
    have counted : Fitted seen (m.update (Context.withDigits left)) := ⟨h.inRun, h.painted⟩
    exact rule.fitting (counted.start _ _) ready.held live plain
  | runs plain rule => exact rule.fitting h ready.held ready.live plain

/-- One step keeps styles fitted to their characters. -/
theorem Fits.step (steady : Steady o seen (c :: rest) m) (h : Fits seen (c :: rest) m) :
    Fits (c :: seen) rest (m.step o c rest) := by
  unfold Machine.step
  split
  next free =>
    have ready : Ready seen m := { steady with held := free, after := steady.idle free }
    exact (ready.fitting h.toFitted).take
  next busy =>
    obtain ⟨k, count⟩ := Nat.exists_eq_succ_of_ne_zero busy
    have ahead := h.held
    rw [count, List.take_succ_cons] at ahead
    obtain ⟨first, others⟩ := List.forall_mem_cons.mp ahead
    refine Fitting.take ⟨⟨h.inRun, h.painted⟩, .inl first, ?_⟩
    simpa only [count, Nat.succ_eq_add_one, Nat.add_sub_cancel] using others

theorem Fits.run (n : Nat) {text : List Char} (steady : Steady o seen text m)
    (h : Fits seen text m) :
    Fits ((text.take n).reverse ++ seen) (text.drop n) (m.run o n text) := by
  induction n generalizing seen text m with
  | zero => exact h
  | succ n ih =>
    cases text with
    | nil => exact h
    | cons c rest => simpa [Machine.run] using ih steady.step (h.step steady)

theorem fits_scanned (o : ScanOptions) (n : Nat) (text : List Char) :
    Fits (text.take n).reverse (text.drop n) (scanned o n text) := by
  have fresh : Fits [] text (fresh text) :=
    ⟨⟨by simp, by simp⟩, by simp [Machine.fresh, startAt]⟩
  simpa [scanned] using fresh.run n (steady_fresh o text)

end Fitting

end Machine

namespace Document

variable {p : Place} {s : ScanSetup} {o : ScanOptions}

/-- A scan of a whole text gives every character a style that may stand on it; a line break has
one that goes on over line breaks. -/
theorem scanAll_fits (options : s.options p = .ok o) (text : List Char) :
    ∃ d r, (ofChars text).scanAll p s = .ok (d, r) ∧ ∀ (position : Nat) (c : Char),
      text[position]? = some c → ∃ style, d.styleAt position = .ok style ∧
        style.fits c = true ∧ (isLineBreak c = true → style.isResting = true) := by
  obtain ⟨d, r, scanned, rfl, full⟩ := scannedTo_scanAll options text
  have fits := (Machine.fits_scanned o d.text.length d.text).latest
  have whole : d.styles = (Machine.scanned o d.text.length d.text).latest.reverse := by
    rw [← Machine.styles_eq, ← full.styles_take, List.take_of_length_le (Nat.le_of_eq full.styles)]
  rw [List.take_length, ← List.reverse_reverse (Machine.latest _), ← whole, List.zip,
    ← List.reverse_zipWith full.styles.symm] at fits
  refine ⟨d, r, scanned, fun position c found => ?_⟩
  have inside : position < d.styles.length := by
    rw [full.styles]
    exact (List.getElem?_eq_some_iff.mp found).1
  have style := List.getElem?_eq_getElem inside
  have paired : (c, d.styles[position]) ∈ d.text.zip d.styles :=
    List.mem_of_getElem? (List.getElem?_zip_eq_some.mpr ⟨found, style⟩)
  have fitting := fits _ (List.mem_reverse.mpr paired)
  refine ⟨d.styles[position], ?_, fitting, Style.isResting_of_fits fitting⟩
  rw [styleAt, itemAt_natCast, style]

/-- A percent sign that ends a number, in front of a line break. -/
theorem scanAll_fits_percent :
    ∃ d r sign feed, (ofChars ['a', ':', '5', '%', '\n']).scanAll default {} = .ok (d, r) ∧
      d.styleAt (3 : Nat) = .ok sign ∧ sign.fits '%' = true ∧
      d.styleAt (4 : Nat) = .ok feed ∧ feed.isResting = true := by
  obtain ⟨d, r, scanned, fits⟩ := scanAll_fits (p := default) (s := {})
    (o := ⟨.standard, true, .builtin⟩) rfl ['a', ':', '5', '%', '\n']
  obtain ⟨sign, styled, fitting, -⟩ := fits 3 '%' rfl
  obtain ⟨feed, styled', -, resting⟩ := fits 4 '\n' rfl
  exact ⟨d, r, sign, feed, scanned, styled, fitting, styled', resting rfl⟩

end Document

end CssHighlight
