import CssHighlight.Proofs.Looking

/-!
# What holds between two characters

A scan that starts at the front of a text keeps an invariant. What is remembered of the last
significant character is what looking back finds, a line ends only where a later scan can go on,
and what the data of a line leaves out is, where the next line starts, either fixed or never read
again.
-/
namespace CssHighlight

namespace Machine

/-- The machine behind a finished line: the data of the line holds all of the context that a
later line may read. -/
structure Recorded (o : ScanOptions) (m : Machine) : Prop where
  atLineStart : m.atLineStart = true
  interpolation : m.context.interpolation = none
  level : m.context.foldNext = m.context.foldHere
  data : ∃ line older, m.lines = line :: older ∧ line.state = LineState.pack m.context ∧
    (o.fold = true → FoldLevel.carried (line.fold.map Int.ofNat) = m.context.foldHere)

/-- The machine between two characters, in front of `text`. -/
structure Steady (o : ScanOptions) (seen text : List Char) (m : Machine) : Prop
    extends Coherent seen m where
  settled : m.context.mathPending = false
  live : m.style.isLive = true
  escape : m.style = .escapeChar → m.context.escape.outer.isQuoted = true
  after : ∀ style, m.after = some style → style.isBase = true
  idle : m.held = 0 → m.after = none
  held : ∀ x ∈ text.take m.held, isLineBreak x = false
  short : m.runLength = 0 → m.style.isBase = true
  previous : m.previous = seen.head?
  name : m.style = .identifier → m.held = 0 ∧ m.previous.any isRunChar = true
  rests : m.previous.any isLineBreak = true →
    m.style.isResting = true ∧ m.held = 0 ∧ m.runLength ≠ 0
  ended : seen.head?.any (lastOfLine · text) = true → Recorded o m

section Taking

variable {o : ScanOptions} {seen : List Char} {c : Char} {rest : List Char} {m : Machine}

/-- A waiting style starts without a trace in the rest of the machine. -/
theorem release_cases (text : List Char) (m : Machine) :
    (∃ style, m.held = 0 ∧ m.after = some style ∧
      m.release text = { m.start style text with after := none }) ∨
    (m.held = 0 → m.after = none) ∧ m.release text = m := by
  unfold release
  split
  next style held after => exact .inl ⟨style, held, after, rfl⟩
  next other =>
    refine .inr ⟨fun held => ?_, rfl⟩
    cases after : m.after with
    | none => rfl
    | some style => exact absurd after (other style held)

/-- Taking a character does nothing else where nothing is held and nothing waits. -/
theorem take_eq (held : m.held = 0) (after : m.after = none) : m.take o c rest =
    { m with
      runLength := m.runLength + 1
      previous := some c
      atLineStart := lastOfLine c rest
      context := if lastOfLine c rest then (m.context.remember m.style c).endLine o
        else m.context.remember m.style c
      lines := if lastOfLine c rest then (m.context.remember m.style c).lineData o :: m.lines
        else m.lines } := by
  cases m
  cases held
  cases after
  rfl

/-- The run behind a character that it took: a style that waited starts there, or the run goes
on. -/
inductive Taken (m m' : Machine) : Prop
  | released {style : Style} (free : m.held = 0) (waits : m.after = some style)
      (style : m'.style = style) (runLength : m'.runLength = 0) (held : m'.held = 0)
      (after : m'.after = none)
      (painted : m'.painted = List.replicate (m.runLength + 1) m.style ++ m.painted)
  | goesOn (idle : m.held = 0 → m.after = none) (style : m'.style = m.style)
      (runLength : m'.runLength = m.runLength + 1) (held : m'.held = m.held)
      (after : m'.after = m.after) (painted : m'.painted = m.painted)
      (runText : m'.runText = m.runText)

theorem take_taken (o : ScanOptions) (c : Char) (rest : List Char) (m : Machine) :
    Taken m (m.take o c rest) := by
  unfold take
  rcases release_cases rest _ with ⟨style, held, after, released⟩ | ⟨idle, released⟩ <;>
    rw [released]
  · exact .released held after rfl rfl held rfl rfl
  · exact .goesOn idle rfl rfl rfl rfl rfl rfl

theorem recorded_take (ends : lastOfLine c rest = true) : Recorded o (m.take o c rest) := by
  -- The level that the line's data carries out is the one in which the next line begins.
  have level (fold : o.fold = true) (context : Context) :
      FoldLevel.carried ((context.lineData o).fold.map Int.ofNat) =
        (context.endLine o).foldHere := by
    have bounds := Context.clampFold_bounds context.foldNext
    simp only [Context.lineData, Context.endLine, fold, if_true, Option.map_some]
    rw [FoldLevel.carried_pack _ _ (by omega)]
    omega
  have recorded (after : Machine) (text : List Char)
      (lines : after.lines = (m.context.remember m.style c).lineData o :: m.lines)
      (context : after.context = (m.context.remember m.style c).endLine o)
      (start : after.atLineStart = true) : Recorded o (after.release text) := by
    have same : (after.release text).atLineStart = after.atLineStart ∧
        (after.release text).context = after.context ∧
        (after.release text).lines = after.lines := by
      rcases release_cases text after with ⟨_, -, -, released⟩ | ⟨-, released⟩ <;>
        rw [released] <;> exact ⟨rfl, rfl, rfl⟩
    refine ⟨same.1.trans start, ?_, ?_, ⟨_, _, same.2.2.trans lines, ?_, fun fold => ?_⟩⟩
    · rw [same.2.1, context]; rfl
    · rw [same.2.1, context]; rfl
    · rw [same.2.1, context]; rfl
    · rw [same.2.1, context, level fold]
  refine recorded _ _ ?_ ?_ ?_ <;> simp [ends]

/-- Looking back from behind a character finds what was remembered of it. -/
theorem lookBehind_remember (seen : List Char) (styles : List Style) (style : Style) (c : Char)
    (context : Context)
    (behind : style.isSpace = true →
      lookBehind seen styles = (context.lastChar, context.lastStyle)) :
    lookBehind (c :: seen) (style :: styles) =
      ((context.remember style c).lastChar, (context.remember style c).lastStyle) := by
  unfold Context.remember
  cases space : style.isSpace with
  | true => rw [lookBehind_space space, behind space, if_pos rfl]
  | false => rw [lookBehind_solid space, if_neg Bool.false_ne_true]

theorem Looked.take (h : Looked seen c rest m) : Steady o (c :: seen) rest (m.take o c rest) := by
  have ended : (c :: seen).head?.any (lastOfLine · rest) = true → Recorded o (m.take o c rest) :=
    fun ends => recorded_take ends
  -- The end of a line changes nothing of what has to be shown of the context.
  obtain ⟨next, next_eq⟩ : ∃ next, next = if lastOfLine c rest then
      (m.context.remember m.style c).endLine o else m.context.remember m.style c := ⟨_, rfl⟩
  have sound : next.Sound := by
    rw [next_eq]
    split
    · exact (h.sound.remember m.style c).endLine o
    · exact h.sound.remember m.style c
  have behind : lookBehind (c :: seen) (m.style :: m.latest) = (next.lastChar, next.lastStyle) := by
    rw [lookBehind_remember seen m.latest m.style c m.context h.behind, next_eq]
    split <;> rfl
  have kept : next.mathPending = m.context.mathPending ∧ next.escape = m.context.escape := by
    rw [next_eq]
    unfold Context.remember
    split <;> split <;> exact ⟨rfl, rfl⟩
  have settled : next.mathPending = false := kept.1.trans h.settled
  have size := congrArg (· + 1) h.size
  unfold Machine.take at ended ⊢
  simp only [← next_eq] at ended ⊢
  obtain ⟨style, held, after, released⟩ | ⟨idle, released⟩ := release_cases rest { m with
      runLength := m.runLength + 1
      previous := some c
      atLineStart := lastOfLine c rest
      context := next
      lines := if lastOfLine c rest then (m.context.remember m.style c).lineData o :: m.lines
        else m.lines }
  · -- A waiting style starts, and with it a run without characters.
    have base := h.after style after
    rw [released] at ended ⊢
    exact {
      sound := sound
      behind := behind
      size := size
      settled := settled
      live := Style.isLive_of_isResting (Style.isResting_of_isBase base)
      escape := by
        intro same
        rw [show style = .escapeChar from same] at base
        exact Bool.noConfusion base
      after := by rintro _ ⟨⟩
      idle := fun _ => rfl
      held := by simp [Machine.start, show m.held = 0 from held]
      short := fun _ => base
      previous := rfl
      name := by
        intro same
        rw [show style = .identifier from same] at base
        exact Bool.noConfusion base
      rests := by
        intro breaks
        have idle : m.after = none := (h.rests breaks).2.2
        rw [idle] at after
        cases after
      ended := ended }
  · rw [released] at ended ⊢
    exact {
      sound := sound
      behind := behind
      size := size
      settled := settled
      live := h.live
      escape := fun same => by rw [kept.2]; exact h.escape same
      after := h.after
      idle := idle
      held := h.held
      short := by rintro ⟨⟩
      previous := rfl
      name := fun same => ⟨(h.name same).1, (h.name same).2.2⟩
      rests := fun breaks => ⟨(h.rests breaks).1, (h.rests breaks).2.1, Nat.succ_ne_zero _⟩
      ended := ended }

/-- One step keeps the invariant. -/
theorem Steady.step (h : Steady o seen (c :: rest) m) :
    Steady o (c :: seen) rest (m.step o c rest) := by
  unfold Machine.step
  split
  next free =>
    have ready : Ready seen m := { h with held := free, after := h.idle free }
    exact ready.look.take
  next busy =>
    -- A character that is held is taken without being looked at; it breaks no line.
    obtain ⟨k, count⟩ := Nat.exists_eq_succ_of_ne_zero busy
    have ahead := h.held
    rw [count, List.take_succ_cons] at ahead
    obtain ⟨first, others⟩ := List.forall_mem_cons.mp ahead
    refine Looked.take ?_
    exact { h with
      behind := fun _ => h.behind
      held := by
        simpa only [count, Nat.succ_eq_add_one, Nat.add_sub_cancel] using others
      name := fun same => absurd (h.name same).1 busy
      rests := by simp [first] }

/-- The invariant holds however far a text is scanned. -/
theorem Steady.run (n : Nat) {text : List Char} (h : Steady o seen text m) :
    Steady o ((text.take n).reverse ++ seen) (text.drop n) (m.run o n text) := by
  induction n generalizing seen text m with
  | zero => exact h
  | succ n ih =>
    cases text with
    | nil => exact h
    | cons c rest => simpa [Machine.run] using ih h.step

end Taking

/-- A machine that has finished nothing yet. -/
def startAt (style : Style) (text : List Char) (previous : Option Char) (atLineStart : Bool)
    (context : Context) : Machine where
  style := style
  runText := text
  runLength := 0
  held := 0
  after := none
  previous := previous
  atLineStart := atLineStart
  context := context
  painted := []
  lines := []

/-- The machine in front of a whole text. -/
def fresh (text : List Char) : Machine :=
  startAt .default text none true .initial

theorem steady_fresh (o : ScanOptions) (text : List Char) : Steady o [] text (fresh text) where
  sound := Context.sound_initial
  behind := rfl
  size := rfl
  settled := rfl
  live := rfl
  escape := by rintro ⟨⟩
  after := by rintro _ ⟨⟩
  idle := fun _ => rfl
  held := by simp [fresh, startAt]
  short := fun _ => rfl
  previous := rfl
  name := by rintro ⟨⟩
  rests := by rintro ⟨⟩
  ended := by rintro ⟨⟩

/-- The machine that has scanned the first characters of a text. -/
def scanned (o : ScanOptions) (n : Nat) (text : List Char) : Machine :=
  (fresh text).run o n text

/-- The invariant holds wherever a scan from the front of a text has come to. -/
theorem steady_scanned (o : ScanOptions) (n : Nat) (text : List Char) :
    Steady o (text.take n).reverse (text.drop n) (scanned o n text) := by
  simpa [scanned] using (steady_fresh o text).run n

end Machine

end CssHighlight
