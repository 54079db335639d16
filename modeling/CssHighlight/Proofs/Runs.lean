import CssHighlight.Proofs.Justified

/-!
# Runs of a scan

Where a run begins and how far it goes. A run begins when a character is looked at, and goes on as
long as the characters behind it are taken into it. It gets one style for all its characters, and
behind it the scan looks for a token, as it does outside all runs.
-/
namespace CssHighlight

namespace Style

/-- The styles of tokens whose extent can be read off the text behind their first characters. -/
def isMeasured : Style → Bool
  | .blockComment | .blockCommentDoc | .lineComment | .lineCommentDoc => true
  | .singleQuoted | .doubleQuoted | .number | .unicodeRange => true
  | _ => false

/-- The styles of comments. -/
def isComment : Style → Bool
  | .lineComment | .lineCommentDoc => true
  | style => style.isBlockComment

/-- The style of a block comment, given the character behind its opening mark. -/
def ofBlockComment (behind : Option Char) : Style :=
  if behind = some '!' ∨ behind = some '*' then .blockCommentDoc else .blockComment

/-- The style of a line comment, given the character behind its opening mark. -/
def ofLineComment (behind : Option Char) : Style :=
  if behind = some '!' ∨ behind = some '/' then .lineCommentDoc else .lineComment

/-- The style of strings in a quote. -/
def ofQuote : Char → Option Style
  | '\'' => some .singleQuoted
  | '"' => some .doubleQuoted
  | _ => none

theorem isQuoted_of_isComment {style : Style} (comment : style.isComment = true) :
    style.isQuoted = false := by
  revert comment
  cases style <;> simp [isComment, isBlockComment, isQuoted]

theorem isComment_ofBlockComment (behind : Option Char) :
    (ofBlockComment behind).isComment = true := by
  unfold ofBlockComment
  split <;> rfl

theorem isComment_ofLineComment (behind : Option Char) :
    (ofLineComment behind).isComment = true := by
  unfold ofLineComment
  split <;> rfl

theorem isQuoted_of_ofQuote {c : Char} {style : Style} (quote : ofQuote c = some style) :
    style.isQuoted = true := by
  unfold ofQuote at quote
  split at quote <;> cases quote <;> rfl

theorem isMeasured_of_ofQuote {c : Char} {style : Style} (quote : ofQuote c = some style) :
    style.isMeasured = true := by
  unfold ofQuote at quote
  split at quote <;> cases quote <;> rfl

end Style

namespace Machine

variable {o : ScanOptions} {seen : List Char} {c : Char} {rest text : List Char}
  {m m' : Machine}

/-! ### Which token starts -/

/-- The tokens that are measured, with the condition under which each starts at `c`, outside all
runs. -/
inductive TokenStart (c : Char) (rest : List Char) (m : Machine) : Machine → Prop
  | blockComment (slash : c = '/') (star : rest.head? = some '*') :
      TokenStart c rest m (((m.update Context.unfold).start
        (.ofBlockComment rest.tail.head?) (c :: rest)).hold 1)
  | lineComment (slash : c = '/') (next : rest.head? = some '/') :
      TokenStart c rest m ((m.start (.ofLineComment rest.tail.head?) (c :: rest)).hold 1)
  | string {style : Style} (quote : Style.ofQuote c = some style) :
      TokenStart c rest m (m.start style (c :: rest))
  | number (first : startsNumber c rest.head? = true ∨ c = '#') :
      TokenStart c rest m (m.start .number (c :: rest))
  | unicodeRange (first : c = 'u' ∨ c = 'U') (plus : rest.head? = some '+')
      (third : rest.tail.head?.any isRangeChar = true) :
      TokenStart c rest m (((m.update (Context.withDigits unicodeRangeDigits)).start .unicodeRange
        (c :: rest)).hold 1)
  | other {m' : Machine} (other : m'.style.isMeasured = false) : TokenStart c rest m m'

theorem startToken_start (blank : m.style = .default) :
    TokenStart c rest m (m.startToken o c rest) := by
  simp only [startToken]
  refine iteInduction (fun opens => .blockComment opens.1 opens.2) fun _ => ?_
  refine iteInduction (fun opens => .lineComment opens.1 opens.2) fun _ => ?_
  refine iteInduction (fun quote => .string (by rw [quote]; rfl)) fun _ => ?_
  refine iteInduction (fun quote => .string (by rw [quote]; rfl)) fun _ => ?_
  refine iteInduction (fun _ => .other rfl) fun _ => ?_
  refine iteInduction (fun _ => .other rfl) fun _ => ?_
  refine iteInduction (fun starts => .number (starts.imp_right And.left)) fun _ => ?_
  refine iteInduction (fun range => .unicodeRange range.2.1 range.1 range.2.2.2.2) fun _ => ?_
  -- Names, punctuation and blanks are not measured.
  refine iteInduction (fun _ => .other ?name) fun _ => ?_
  case name =>
    show Style.isMeasured (if c = '@' then .atRule else _) = false
    split
    · rfl
    · split <;> rfl
  refine iteInduction (fun _ => .other rfl) fun _ => ?_
  refine iteInduction (fun _ => .other rfl) fun _ => ?_
  refine iteInduction (fun _ => .other ?_) fun _ => .other (by rw [blank]; rfl)
  rcases (@punctuate_punctuated o c (m.start .operator (c :: rest))).style with same | ⟨sign, -⟩
  · rw [same]
    rfl
  · rw [sign]
    rfl

theorem TokenStart.number_of_style (h : TokenStart c rest m m') (style : m'.style = .number) :
    m' = m.start .number (c :: rest) ∧ (startsNumber c rest.head? = true ∨ c = '#') := by
  cases h with
  | number first => exact ⟨rfl, first⟩
  | blockComment =>
    cases (Style.isComment_ofBlockComment _).symm.trans (congrArg Style.isComment style)
  | lineComment =>
    cases (Style.isComment_ofLineComment _).symm.trans (congrArg Style.isComment style)
  | string quote =>
    cases (Style.isQuoted_of_ofQuote quote).symm.trans (congrArg Style.isQuoted style)
  | unicodeRange => cases style
  | other plain => cases plain.symm.trans (congrArg Style.isMeasured style)

theorem TokenStart.unicodeRange_of_style (h : TokenStart c rest m m')
    (style : m'.style = .unicodeRange) :
    m' = ((m.update (Context.withDigits unicodeRangeDigits)).start .unicodeRange
        (c :: rest)).hold 1 ∧
      (c = 'u' ∨ c = 'U') ∧ rest.head? = some '+' ∧ rest.tail.head?.any isRangeChar = true := by
  cases h with
  | unicodeRange first plus third => exact ⟨rfl, first, plus, third⟩
  | blockComment =>
    cases (Style.isComment_ofBlockComment _).symm.trans (congrArg Style.isComment style)
  | lineComment =>
    cases (Style.isComment_ofLineComment _).symm.trans (congrArg Style.isComment style)
  | string quote =>
    cases (Style.isQuoted_of_ofQuote quote).symm.trans (congrArg Style.isQuoted style)
  | number => cases style
  | other plain => cases plain.symm.trans (congrArg Style.isMeasured style)

theorem TokenStart.string_of_style (h : TokenStart c rest m m') {style : Style}
    (same : m'.style = style) (quoted : style.isQuoted = true)
    (measured : style.isMeasured = true) : m' = m.start style (c :: rest) := by
  subst same
  cases h with
  | string quote => rfl
  | blockComment =>
    cases (Style.isQuoted_of_isComment (Style.isComment_ofBlockComment _)).symm.trans quoted
  | lineComment =>
    cases (Style.isQuoted_of_isComment (Style.isComment_ofLineComment _)).symm.trans quoted
  | number | unicodeRange => cases quoted
  | other plain => cases plain.symm.trans measured

/-- A measured run that has no character yet began as a token, unless it is a string that goes
on. -/
theorem RunRule.started (rule : RunRule o c rest m m') (measured : m'.style.isMeasured = true)
    (fresh : m'.runLength = 0) (short : m.runLength = 0 → m.style.isBase = true)
    (outside : m'.style.isQuoted = true → m.style.isQuoted = false) :
    ∃ k : Machine, k.held = m.held ∧ k.after = m.after ∧ TokenStart c rest k m' := by
  have started (k : Machine) (blank : k.style = .default) :
      TokenStart c rest k (k.startToken o c rest) := startToken_start blank
  -- A run without a character that goes on has waited, as only strings do.
  have same {p : Prop} (style : m'.style = m.style) (length : m'.runLength = m.runLength) : p := by
    have base := short (length.symm.trans fresh)
    rw [style] at measured outside
    rcases Style.isBase_cases base with blank | quoted | quoted | quoted
    · rw [blank] at measured
      cases measured
    all_goals
      rw [quoted] at outside
      cases outside rfl
  cases rule with
  | stays | percent | commentEnd | quoteEnd => exact same rfl rfl
  | blank blank => exact ⟨m, rfl, rfl, started m blank⟩
  | dimension | escape | interpolation | address => cases measured
  | @token style context =>
    exact ⟨m.endAs style context (c :: rest), rfl, rfl, started _ rfl⟩

/-- A measured run begins as a token, unless it is a string that goes on. -/
theorem Ready.started (ready : Ready seen m) (measured : (m.look o c rest).style.isMeasured = true)
    (fresh : (m.look o c rest).runLength = 0)
    (outside : (m.look o c rest).style.isQuoted = true →
      m.style.isQuoted = false ∧ m.style ≠ .escapeChar) :
    ∃ k : Machine, k.held = 0 ∧ k.after = none ∧ TokenStart c rest k (m.look o c rest) := by
  have rule := @look_rule o c rest m
  rw [← ready.held, ← ready.after]
  generalize m.look o c rest = m' at rule measured fresh outside ⊢
  cases rule with
  | digit left escape =>
    rw [show (m.update (Context.withDigits left)).style = .escapeChar from escape] at measured
    cases measured
  | resumes left escape rule =>
    refine rule.started measured fresh (fun _ => ?_) fun quoted => ?_
    · exact Style.isBase_of_isQuoted (ready.escape escape)
    · exact absurd escape (outside quoted).2
  | runs plain rule =>
    exact rule.started measured fresh ready.short fun quoted => (outside quoted).1

/-! ### Where a run begins and ends -/

section Scanned

variable (o : ScanOptions) (text : List Char)

/-- At a position, where the text goes on with `c` and `rest`, the scan from the front begins a run:
it looks at `c`, and the run into which it is about to take it has no character yet. -/
structure BeginsRun (i : Nat) (c : Char) (rest : List Char) (kind : Style) : Prop where
  ahead : text.drop i = c :: rest
  held : (scanned o i text).held = 0
  style : ((scanned o i text).look o c rest).style = kind
  runLength : ((scanned o i text).look o c rest).runLength = 0

/-- At a position, if the text goes on there, the scan from the front ends the run in progress and
looks for a token. How many characters an escape sequence or a unicode range has left does not
matter to a token. -/
def LooksForToken (i : Nat) : Prop :=
  ∀ c rest, text.drop i = c :: rest → (scanned o i text).held = 0 ∧
    ∃ left, (scanned o i text).look o c rest =
      ((scanned o i text).update (Context.withDigits left)).leave o c rest

/-- At each position between two others the run in progress is the one that the scan from the front
began at the first of them. -/
def Unbroken (start stop : Nat) : Prop :=
  ∀ p, start < p → p < stop → start + (scanned o p text).runLength = p

/-- The scan from the front has come to a position inside the run that it began at `start`. -/
structure InRun (start p : Nat) (kind : Style) (held : Nat) (after : Option Style) : Prop where
  le : p ≤ text.length
  style : (scanned o p text).style = kind
  held : (scanned o p text).held = held
  after : (scanned o p text).after = after
  runText : (scanned o p text).runText = text.drop start
  lt : start < p
  unbroken : Unbroken o text start (p + 1)

/-- The scan from the front is about to take the character at a position into the run that it began
at `start`, and the machine for this is `m`. -/
structure Taking (start p : Nat) (kind : Style) (held : Nat) (after : Option Style) (m : Machine) :
    Prop where
  taken : ∃ c rest, text.drop p = c :: rest ∧ scanned o (p + 1) text = m.take o c rest
  style : m.style = kind
  held : m.held = held
  after : m.after = after
  runText : m.runText = text.drop start
  length : start + m.runLength = p
  unbroken : Unbroken o text start (p + 1)

/-- The scan from the front has come to the end of the run that it began at `start`, and is outside
all runs. -/
structure BehindRun (start stop : Nat) (kind : Style) : Prop where
  le : stop ≤ text.length
  style : (scanned o stop text).style = .default
  held : (scanned o stop text).held = 0
  runLength : (scanned o stop text).runLength = 0
  painted : ∃ older, (scanned o stop text).painted = List.replicate (stop - start) kind ++ older
  lt : start < stop
  unbroken : Unbroken o text start stop

end Scanned

/-- A character that nothing holds is looked at, and taken. -/
theorem scanned_looked {p : Nat} (ahead : text.drop p = c :: rest)
    (held : (scanned o p text).held = 0) :
    scanned o (p + 1) text = ((scanned o p text).look o c rest).take o c rest := by
  rw [scanned_succ ahead, step, if_pos held]

section Going

variable {start p : Nat} {kind : Style} {held : Nat} {after : Option Style}

theorem head?_any_iff {α : Type} {p : α → Bool} {l : List α} :
    l.head?.any p = true ↔ ∃ a tail, l = a :: tail ∧ p a = true := by
  cases l <;> simp

theorem lt_of_drop {α : Type} {text : List α} {p : Nat} {c : α} {rest : List α}
    (ahead : text.drop p = c :: rest) : p < text.length :=
  Nat.lt_of_not_le fun le => by
    rw [List.drop_of_length_le le] at ahead
    cases ahead

theorem drop_succ_of_drop {α : Type} {text : List α} {p : Nat} {c : α} {rest : List α}
    (ahead : text.drop p = c :: rest) : text.drop (p + 1) = rest := by
  rw [← List.drop_drop, ahead, List.drop_one, List.tail_cons]

/-- Taking a character leaves the escape sequence as it is. -/
theorem escape_take (o : ScanOptions) (c : Char) (rest : List Char) (m : Machine) :
    (m.take o c rest).context.escape = m.context.escape := by
  have kept : (m.context.remember m.style c).escape = m.context.escape := by
    unfold Context.remember
    split <;> rfl
  have ended : (if lastOfLine c rest then (m.context.remember m.style c).endLine o
      else m.context.remember m.style c).escape = m.context.escape := by
    split <;> exact kept
  unfold take
  rcases release_cases rest _ with ⟨_, -, -, released⟩ | ⟨-, released⟩ <;> rw [released] <;>
    exact ended

theorem Taking.escape (h : Taking o text start p kind held after m) :
    (scanned o (p + 1) text).context.escape = m.context.escape := by
  obtain ⟨c, rest, -, taken⟩ := h.taken
  rw [taken, escape_take]

/-- The character is taken and the run goes on. -/
theorem Taking.goesOn (h : Taking o text start p kind held after m)
    (idle : held = 0 → after = none) : InRun o text start (p + 1) kind held after := by
  obtain ⟨c, rest, ahead, taken⟩ := h.taken
  have length := h.length
  cases take_taken o c rest m with
  | released free waits =>
    -- Where nothing is held no style waits.
    rw [h.after, idle (h.held.symm.trans free)] at waits
    cases waits
  | goesOn _ style runLength held after _ runText =>
    rw [← taken] at style runLength held after runText
    refine ⟨lt_of_drop ahead, style.trans h.style, held.trans h.held, after.trans h.after,
      runText.trans h.runText, by omega, fun q lt below => ?_⟩
    rcases Nat.lt_or_eq_of_le (Nat.le_of_lt_succ below) with before | rfl
    · exact h.unbroken q lt before
    · omega

/-- The character is taken and the run ends behind it. -/
theorem Taking.ends (h : Taking o text start p kind 0 (some .default) m) :
    BehindRun o text start (p + 1) kind := by
  obtain ⟨c, rest, ahead, taken⟩ := h.taken
  have length := h.length
  cases take_taken o c rest m with
  | released free waits style runLength held _ painted =>
    rw [← taken] at style runLength held painted
    rw [h.after] at waits
    obtain rfl := Option.some.inj waits
    refine ⟨lt_of_drop ahead, style, held, runLength, ⟨m.painted, ?_⟩, by omega, h.unbroken⟩
    rw [painted, h.style]
    congr 2
    omega
  | goesOn idle =>
    have none := idle h.held
    rw [h.after] at none
    cases none

/-- Looking at a character leaves the run in progress, or restyles it. -/
theorem InRun.looked (h : InRun o text start p kind 0 none) (ahead : text.drop p = c :: rest)
    {kind' : Style} (looked : (scanned o p text).look o c rest = m) (style : m.style = kind')
    (heldBehind : m.held = held) (waits : m.after = after)
    (runText : m.runText = (scanned o p text).runText)
    (runLength : m.runLength = (scanned o p text).runLength) :
    Taking o text start p kind' held after m where
  taken := ⟨c, rest, ahead, by rw [scanned_looked ahead h.held, looked]⟩
  style := style
  held := heldBehind
  after := waits
  runText := runText.trans h.runText
  length := by rw [runLength, h.unbroken p h.lt (Nat.lt_succ_self p)]
  unbroken := h.unbroken

/-- A character at which the machine stays as it is goes on the run. -/
theorem InRun.stays (h : InRun o text start p kind 0 none) (ahead : text.drop p = c :: rest)
    (looked : (scanned o p text).look o c rest = scanned o p text) :
    InRun o text start (p + 1) kind 0 none :=
  (h.looked ahead looked h.style h.held h.after rfl rfl).goesOn fun _ => rfl

/-- A character that is held is taken into the run. -/
theorem InRun.passed (h : InRun o text start p kind (held + 1) after)
    (ahead : text.drop p = c :: rest) :
    Taking o text start p kind held after { scanned o p text with held := held } where
  taken := by
    refine ⟨c, rest, ahead, ?_⟩
    rw [scanned_succ ahead, step, if_neg (by rw [h.held]; exact Nat.succ_ne_zero held), h.held]
    rfl
  style := h.style
  held := rfl
  after := h.after
  runText := h.runText
  length := h.unbroken p h.lt (Nat.lt_succ_self p)
  unbroken := h.unbroken

/-- A measured run begins as a token. Behind an escape sequence a string only goes on. -/
theorem BeginsRun.started (h : BeginsRun o text start c rest kind)
    (measured : kind.isMeasured = true)
    (outside : kind.isQuoted = true →
      (scanned o start text).style.isQuoted = false ∧ (scanned o start text).style ≠ .escapeChar) :
    ∃ k : Machine, k.held = 0 ∧ k.after = none ∧
      TokenStart c rest k ((scanned o start text).look o c rest) := by
  have steady := steady_scanned o start text
  have ready : Ready (text.take start).reverse (scanned o start text) :=
    { steady with held := h.held, after := steady.idle h.held }
  have style := h.style
  subst style
  exact ready.started measured h.runLength outside

/-- The first character of a run. -/
theorem BeginsRun.taking (h : BeginsRun o text start c rest kind)
    (runText : ((scanned o start text).look o c rest).runText = c :: rest) :
    Taking o text start start kind ((scanned o start text).look o c rest).held
      ((scanned o start text).look o c rest).after ((scanned o start text).look o c rest) where
  taken := ⟨c, rest, h.ahead, scanned_looked h.ahead h.held⟩
  style := h.style
  held := rfl
  after := rfl
  runText := runText.trans h.ahead.symm
  length := by rw [h.runLength, Nat.add_zero]
  unbroken := fun q lt below => absurd lt (Nat.not_lt.mpr (Nat.le_of_lt_succ below))

/-- A run whose token holds no character in advance. -/
theorem BeginsRun.first (h : BeginsRun o text start c rest kind) {k : Machine} (held : k.held = 0)
    (after : k.after = none)
    (looked : (scanned o start text).look o c rest = k.start kind (c :: rest)) :
    InRun o text start (start + 1) kind 0 none := by
  have taking := h.taking (by rw [looked]; rfl)
  rw [looked] at taking
  refine Taking.goesOn (m := k.start kind (c :: rest)) ?_ fun _ => rfl
  rwa [← held, ← after]

/-- A run goes on over characters of a class, when each of them is taken into it, up to one that is
not of the class. -/
theorem InRun.while {class_ : Char → Bool}
    (goesOn : ∀ {p c rest}, InRun o text start p kind 0 none → text.drop p = c :: rest →
      class_ c = true → InRun o text start (p + 1) kind 0 none)
    (h : InRun o text start p kind 0 none) :
    InRun o text start (p + ((text.drop p).takeWhile class_).length) kind 0 none ∧
      ∀ c rest, text.drop (p + ((text.drop p).takeWhile class_).length) = c :: rest →
        class_ c = false := by
  generalize ahead : text.drop p = behind
  induction behind generalizing p with
  | nil => exact ⟨h, fun c rest more => nomatch ahead.symm.trans more⟩
  | cons c rest ih =>
    rw [List.takeWhile_cons]
    split
    next holds =>
      have further := ih (goesOn h ahead holds) (drop_succ_of_drop ahead)
      rwa [Nat.add_right_comm] at further
    next fails =>
      refine ⟨h, fun c' rest' more => ?_⟩
      obtain ⟨rfl, -⟩ := List.cons.inj (ahead.symm.trans more)
      exact Bool.eq_false_iff.mpr fails

/-! ### Behind a run -/

/-- Every character is taken, by a machine that has looked at it or holds it. -/
theorem step_eq_take (o : ScanOptions) (c : Char) (rest : List Char) (m : Machine) :
    ∃ m' : Machine, m.step o c rest = m'.take o c rest ∧ m.painted <:+ m'.painted := by
  by_cases held : m.held = 0
  · exact ⟨m.look o c rest, if_pos held, painted_look held⟩
  · exact ⟨{ m with held := m.held - 1 }, if_neg held, List.suffix_rfl⟩

/-- The character that was taken last is remembered, and whether it ended its line. -/
theorem previous_take (m : Machine) : (m.take o c rest).previous = some c := by
  unfold take
  rcases release_cases rest _ with ⟨_, -, -, released⟩ | ⟨-, released⟩ <;> rw [released] <;> rfl

theorem atLineStart_take (m : Machine) : (m.take o c rest).atLineStart = lastOfLine c rest := by
  unfold take
  rcases release_cases rest _ with ⟨_, -, -, released⟩ | ⟨-, released⟩ <;> rw [released] <;> rfl

theorem taken_scanned {p : Nat} (ahead : text.drop p = c :: rest) :
    (scanned o (p + 1) text).previous = some c ∧
      (scanned o (p + 1) text).atLineStart = lastOfLine c rest := by
  obtain ⟨m, taken, -⟩ := step_eq_take o c rest (scanned o p text)
  rw [scanned_succ ahead, taken]
  exact ⟨previous_take m, atLineStart_take m⟩

/-- What is painted stays painted. -/
theorem painted_run (n : Nat) (text : List Char) (m : Machine) :
    m.painted <:+ (m.run o n text).painted := by
  induction n generalizing text m with
  | zero => exact List.suffix_rfl
  | succ n ih =>
    cases text with
    | nil => exact List.suffix_rfl
    | cons c rest =>
      obtain ⟨m', taken, painted⟩ := step_eq_take o c rest m
      have step : m.painted <:+ (m.step o c rest).painted := by
        rw [taken]
        exact painted.trans (painted_take m')
      exact step.trans (ih rest _)

theorem painted_scanned {k n : Nat} (le : k ≤ n) (text : List Char) :
    (scanned o k text).painted <:+ (scanned o n text).painted := by
  obtain ⟨i, rfl⟩ := Nat.exists_eq_add_of_le le
  rw [scanned_add]
  exact painted_run i _ _

/-- Looking for a token the machine has painted the run in progress. -/
theorem painted_leave (held : m.held = 0) :
    (m.leave o c rest).painted = List.replicate m.runLength m.style ++ m.painted :=
  painted_startToken (m := m.start .default (c :: rest)) held rfl

theorem latest_of_painted {n : Nat} (le : n ≤ text.length) :
    (scanned o n text).painted <:+ (scanned o text.length text).latest :=
  (painted_scanned le text).trans (List.suffix_append _ _)

/-- Where no run is in progress the machine has the rest of the text in front of it. -/
theorem runText_scanned {n : Nat} (le : n ≤ text.length)
    (fresh : (scanned o n text).runLength = 0) : (scanned o n text).runText = text.drop n := by
  cases n with
  | zero => rfl
  | succ n =>
    have ahead := List.drop_eq_getElem_cons le
    obtain ⟨m, taken, -⟩ := step_eq_take o text[n] (text.drop (n + 1)) (scanned o n text)
    rw [scanned_succ ahead, taken, take] at fresh ⊢
    -- A run that has no character between two steps is one that waited for the step before.
    rcases release_cases (text.drop (n + 1)) _ with ⟨_, -, -, released⟩ | ⟨-, released⟩
    · rw [released]
      rfl
    · rw [released] at fresh
      cases fresh

/-- A run that has no character yet has been waited for. -/
theorem held_scanned {n : Nat} (le : n ≤ text.length) (fresh : (scanned o n text).runLength = 0) :
    (scanned o n text).held = 0 := by
  cases n with
  | zero => rfl
  | succ n =>
    have ahead := List.drop_eq_getElem_cons le
    obtain ⟨m, taken, -⟩ := step_eq_take o text[n] (text.drop (n + 1)) (scanned o n text)
    rw [scanned_succ ahead, taken] at fresh ⊢
    cases take_taken o text[n] (text.drop (n + 1)) m with
    | released _ _ _ _ held => exact held
    | goesOn _ _ runLength =>
      rw [runLength] at fresh
      cases fresh

/-- At the end of the text nothing is left to look for. -/
theorem looksForToken_end (ahead : text.drop p = []) : LooksForToken o text p := by
  intro c rest more
  rw [ahead] at more
  cases more

theorem looksForToken_leave (ahead : text.drop p = c :: rest) (held : (scanned o p text).held = 0)
    (looked : (scanned o p text).look o c rest = (scanned o p text).leave o c rest) :
    LooksForToken o text p := by
  intro c' rest' same
  obtain ⟨rfl, rfl⟩ := List.cons.inj (same.symm.trans ahead)
  exact ⟨held, (scanned o p text).context.escape.digitsLeft, looked⟩

/-- Outside all runs the scan looks for a token. -/
theorem looksForToken_default (le : p ≤ text.length) (style : (scanned o p text).style = .default)
    (held : (scanned o p text).held = 0) (runLength : (scanned o p text).runLength = 0) :
    LooksForToken o text p := by
  rcases more : text.drop p with _ | ⟨c, rest⟩
  · exact looksForToken_end more
  refine looksForToken_leave more held ?_
  have runText := runText_scanned le runLength
  rw [more] at runText
  generalize scanned o p text = m at runText style runLength
  obtain ⟨_, _, _, _, _, _, _, _, _, _⟩ := m
  subst runText style runLength
  simp only [look, stepRun, leave]
  rfl

theorem BehindRun.looksForToken (h : BehindRun o text start p kind) : LooksForToken o text p :=
  looksForToken_default h.le h.style h.held h.runLength

/-- Where the scan looks for a token the styles of all runs behind are settled. -/
theorem LooksForToken.settled (token : LooksForToken o text p) (le : p ≤ text.length) :
    (scanned o p text).latest <:+ (scanned o text.length text).latest := by
  rcases Nat.lt_or_eq_of_le le with inside | rfl
  · have ahead := List.drop_eq_getElem_cons inside
    obtain ⟨held, left, looked⟩ := token _ _ ahead
    -- The run in progress is painted before the token starts, and nothing painted changes.
    have further : (scanned o p text).latest <:+ (scanned o (p + 1) text).painted := by
      rw [scanned_looked ahead held, looked]
      refine List.IsSuffix.trans ?_ (painted_take _)
      rw [@painted_leave o _ _ ((scanned o p text).update (Context.withDigits left)) held]
      exact List.suffix_rfl
    exact further.trans (latest_of_painted inside)
  · exact List.suffix_rfl

end Going

end Machine

namespace Document

open Machine

/-- The characters from `start` up to `stop` are one run of the scan from the front, and have its
style. Behind it the scan looks for a token. -/
structure ScannedRun (o : ScanOptions) (d : Document) (start stop : Nat) (style : Style) :
    Prop where
  unbroken : Unbroken o d.text start stop
  styled : ∀ p : Nat, start ≤ p → p < stop → d.styleAt p = .ok style
  token : LooksForToken o d.text stop

variable {o : ScanOptions} {d : Document} {start stop : Nat} {style : Style}

/-- What stands in front of older items, the latest first, is found behind them in their order. -/
theorem getElem?_reverse_of_suffix {α : Type} {items older : List α} {item : α} {count p : Nat}
    (settled : List.replicate count item ++ older <:+ items) (le : older.length ≤ p)
    (lt : p < older.length + count) : items.reverse[p]? = some item := by
  obtain ⟨later, rfl⟩ := settled
  have size : older.reverse.length = older.length := List.length_reverse
  rw [List.reverse_append, List.reverse_append, List.reverse_replicate,
    List.getElem?_append_left, List.getElem?_append_right, size, List.getElem?_replicate_of_lt]
  · omega
  · omega
  · rw [List.length_append, List.length_replicate, size]
    omega

theorem ScannedTo.styleAt_of_suffix (full : d.ScannedTo o d.text.length) {count : Nat}
    {older : List Style}
    (settled : List.replicate count style ++ older <:+ (scanned o d.text.length d.text).latest)
    {p : Nat} (le : older.length ≤ p) (lt : p < older.length + count) :
    d.styleAt p = .ok style := by
  rw [styleAt, itemAt_eq_ok_iff, full.styles_eq, getElem?_reverse_of_suffix settled le lt]

/-- The run that the scan has come to the end of is a run of the scanned text. -/
theorem ScannedTo.scannedRun (full : d.ScannedTo o d.text.length) (le : stop ≤ d.text.length)
    (lt : start < stop) (latest : ∃ older, (scanned o stop d.text).latest =
      List.replicate (stop - start) style ++ older)
    (unbroken : Unbroken o d.text start stop) (token : LooksForToken o d.text stop) :
    d.ScannedRun o start stop style := by
  obtain ⟨older, latest⟩ := latest
  have size := length_latest_scanned (o := o) le
  have settled := token.settled le
  rw [latest] at size settled
  rw [List.length_append, List.length_replicate] at size
  exact ⟨unbroken, fun p from_ upTo => full.styleAt_of_suffix settled (by omega) (by omega), token⟩

theorem ScannedTo.run_behind (full : d.ScannedTo o d.text.length)
    (h : BehindRun o d.text start stop style) : d.ScannedRun o start stop style := by
  obtain ⟨older, painted⟩ := h.painted
  refine full.scannedRun h.le h.lt ⟨older, ?_⟩ h.unbroken h.looksForToken
  rw [latest, h.runLength, painted]
  rfl

theorem ScannedTo.run_ahead (full : d.ScannedTo o d.text.length)
    (h : InRun o d.text start stop style 0 none) (token : LooksForToken o d.text stop) :
    d.ScannedRun o start stop style := by
  have length := h.unbroken stop h.lt (Nat.lt_succ_self stop)
  refine full.scannedRun h.le h.lt ⟨(scanned o stop d.text).painted, ?_⟩
    (fun p lt below => h.unbroken p lt (Nat.lt_succ_of_lt below)) token
  rw [latest, h.style]
  congr 2
  omega

end Document

end CssHighlight
