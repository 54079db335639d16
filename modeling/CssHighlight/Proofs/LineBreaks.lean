import CssHighlight.Proofs.SharedPrefix
import CssHighlight.Proofs.Variants

/-!
# Styles of line breaks

Line feeds, carriage returns and the two together end lines alike. A scan of a text with other
line breaks is compared with the scan of the text line by line: the positions drift apart, but
in front of every line the two machines go on alike.
-/
namespace CssHighlight

def lineBreaks : List (List Char) := [['\n'], ['\r'], ['\r', '\n']]

/-- A text with another line break in the place of every line feed. -/
def breakLines (br text : List Char) : List Char :=
  text.flatMap fun c => if c = '\n' then br else [c]

/-- Styles for a text with other line breaks, all of whose characters have the style that the
line feed had. -/
def breakStyles (br text : List Char) (styles : List Style) : List Style :=
  (text.zip styles).flatMap fun entry =>
    if entry.1 = '\n' then List.replicate br.length entry.2 else [entry.2]

section Texts

variable {br text text' : List Char} {styles styles' : List Style}

theorem breakLines_append (br text text' : List Char) :
    breakLines br (text ++ text') = breakLines br text ++ breakLines br text' :=
  List.flatMap_append

theorem breakLines_plain (br : List Char) (plain : '\n' ∉ text) : breakLines br text = text := by
  induction text with
  | nil => rfl
  | cons c text ih =>
    obtain ⟨first, others⟩ : '\n' ≠ c ∧ '\n' ∉ text := by simpa using plain
    rw [breakLines, List.flatMap_cons, if_neg first.symm]
    exact congrArg (c :: ·) (ih others)

theorem breakStyles_append (same : styles.length = text.length) :
    breakStyles br (text ++ text') (styles ++ styles') =
      breakStyles br text styles ++ breakStyles br text' styles' := by
  rw [breakStyles, List.zip_append same.symm, List.flatMap_append]
  rfl

theorem breakStyles_plain (plain : '\n' ∉ text) (same : styles.length = text.length) :
    breakStyles br text styles = styles := by
  induction text generalizing styles with
  | nil => rw [List.eq_nil_of_length_eq_zero same]; rfl
  | cons c text ih =>
    obtain ⟨first, others⟩ : '\n' ≠ c ∧ '\n' ∉ text := by simpa using plain
    cases styles with
    | nil => cases same
    | cons style styles =>
      rw [breakStyles, List.zip_cons_cons, List.flatMap_cons, if_neg first.symm]
      exact congrArg (style :: ·) (ih others (Nat.succ.inj same))

/-- Line breaks separate tokens, whichever they are. -/
theorem nextSolid_breakLines (kind : br ∈ lineBreaks) (text : List Char) :
    Machine.nextSolid (breakLines br text) = Machine.nextSolid text := by
  have blank : Machine.nextSolid br = none := by
    simp only [lineBreaks, List.mem_cons, List.not_mem_nil, or_false] at kind
    rcases kind with rfl | rfl | rfl <;> rfl
  induction text with
  | nil => rfl
  | cons c text ih =>
    have step : breakLines br (c :: text) = (if c = '\n' then br else [c]) ++ breakLines br text :=
      List.flatMap_cons
    have cut : Machine.nextSolid (c :: text) =
        (Machine.nextSolid [c]).or (Machine.nextSolid text) := nextSolid_append [c] text
    rw [step, nextSolid_append, ih, cut]
    split
    next feed => subst feed; rw [blank]; rfl
    next => rfl

/-- Without carriage returns in the text no line feed follows a lone one. -/
theorem head?_breakLines (text : List Char) :
    (breakLines ['\r'] text).head? ≠ some '\n' := by
  cases text with
  | nil => simp [breakLines]
  | cons c text =>
    rw [breakLines, List.flatMap_cons]
    split
    · simp
    next other => simpa using other

/-- A text without carriage returns has as many lines, whichever breaks them. -/
theorem length_lineStarts_breakLines (kind : br ∈ lineBreaks) (plain : '\r' ∉ text) :
    (lineStarts (breakLines br text)).length = (lineStarts text).length := by
  rw [length_lineStarts, length_lineStarts, Nat.add_right_cancel_iff]
  induction text with
  | nil => rfl
  | cons c text ih =>
    obtain ⟨carriage, others⟩ : '\r' ≠ c ∧ '\r' ∉ text := by simpa using plain
    have step : breakLines br (c :: text) = (if c = '\n' then br else [c]) ++ breakLines br text :=
      List.flatMap_cons
    rw [step, List.length_cons, lineEnds_cons, ← ih others]
    split
    next feed =>
      subst feed
      have lone := head?_breakLines text
      simp only [lineBreaks, List.mem_cons, List.not_mem_nil, or_false] at kind
      rcases kind with rfl | rfl | rfl <;>
        simp [lineEnds_cons, endsLine, lone]
    next other =>
      simp [lineEnds_cons, endsLine, other, carriage.symm]

end Texts

namespace Machine

variable {o : ScanOptions} {m m' n n' : Machine}

/-! ### Along a line and over its end -/

/-- Alike machines stay alike within a line, whatever breaks it. -/
theorem Alike.run_front {front text text' : List Char} {styles : List Style}
    {lines : List LineData} (h : Alike o (front ++ text) (front ++ text') styles lines m m')
    (goesOn : ∀ c ∈ front, isLineBreak c = false) (line : Glance isLineBreak text text')
    (some : text ≠ []) (some' : text' ≠ []) (solid : nextSolid text = nextSolid text') :
    Alike o text text' styles lines (m.run o front.length (front ++ text))
      (m'.run o front.length (front ++ text')) := by
  induction front generalizing m m' with
  | nil => exact h
  | cons c front ih =>
    obtain ⟨first, others⟩ := List.forall_mem_cons.mp goesOn
    have ahead := line.append (c :: front)
    have same (front : List Char) : nextSolid (front ++ text) = nextSolid (front ++ text') := by
      rw [nextSolid_append, nextSolid_append, solid]
    have name : SameNameEnd o c (front ++ text) c (front ++ text') m := by
      refine .of_marks Iff.rfl (fun _ => ?_) fun _ => ?_
      · rw [same]
        exact SameMark.refl _ _
      · rw [← List.cons_append, ← List.cons_append, same]
        exact SameMark.refl _ _
    have inside {ahead : List Char} (some : ahead ≠ []) :
        lastOfLine c (front ++ ahead) = false := by
      have feed : c ≠ '\n' ∧ c ≠ '\r' := by simpa [isLineBreak] using first
      simp [lastOfLine, endsLine, feed, some]
    refine ih (h.step (fun _ => .of_glance ahead fun _ => name) (fun _ => ahead.slash) ?_) others
    exact (inside some).trans (inside some').symm

/-- The machine `m'` behind a line break, at whose first character `m` has looked. -/
structure Broken (o : ScanOptions) (br : List Char) (m m' : Machine) : Prop where
  style : m'.style = m.style
  held : m'.held = 0
  after : m'.after = none
  previous : m'.previous.any isLineBreak = true
  atLineStart : m'.atLineStart = true
  context : ∃ x style, m'.context = (m.context.withLast x style).endLine o ∧
    (m.style.isSpace = true → x = m.context.lastChar ∧ style = m.context.lastStyle)
  latest : m'.latest = List.replicate br.length m.style ++ m.latest
  lines : m'.lines = m.context.lineData o :: m.lines

theorem remember_withLast (style : Style) (c : Char) (context : Context) :
    ∃ x last, context.remember style c = context.withLast x last ∧
      (style.isSpace = true → x = context.lastChar ∧ last = context.lastStyle) := by
  unfold Context.remember
  split
  next => exact ⟨context.lastChar, context.lastStyle, rfl, fun _ => ⟨rfl, rfl⟩⟩
  next solid => exact ⟨some c, style, rfl, fun space => absurd space solid⟩

/-- The last character of a line break ends the line. -/
theorem broken_take {c : Char} {rest : List Char} (breaks : isLineBreak c = true)
    (ends : lastOfLine c rest = true) (held : m.held = 0) (after : m.after = none) :
    Broken o [c] m (m.take o c rest) := by
  obtain ⟨x, style, last, kept⟩ := remember_withLast m.style c m.context
  rw [take_eq held after, if_pos ends, if_pos ends, lineData_remember]
  exact ⟨rfl, held, after, breaks, ends, ⟨x, style, by rw [last], kept⟩, rfl, rfl⟩

theorem broken {b : Char} {more text : List Char} (kind : b :: more ∈ lineBreaks)
    (lone : b :: more = ['\r'] → text.head? ≠ some '\n') (resting : m.style.isResting = true)
    (held : m.held = 0) (after : m.after = none) :
    Broken o (b :: more) m ((m.take o b (more ++ text)).run o more.length (more ++ text)) := by
  simp only [lineBreaks, List.mem_cons, List.not_mem_nil, or_false] at kind
  -- A line feed, a carriage return, and one in front of a line feed.
  rcases kind with kind | kind | kind <;> obtain ⟨rfl, rfl⟩ := List.cons.inj kind
  · exact broken_take rfl rfl held after
  · exact broken_take rfl (by simp [lastOfLine, endsLine, lone]) held after
  · -- The line feed is looked at without a trace.
    obtain ⟨x, style, last, kept⟩ := remember_withLast m.style '\r' m.context
    have taken : m.take o '\r' (['\n'] ++ text) = { m with
        runLength := m.runLength + 1
        previous := some '\r'
        atLineStart := false
        context := m.context.withLast x style } := by
      rw [take_eq held after, ← last]
      rfl
    have fed : (m.take o '\r' (['\n'] ++ text)).run o ['\n'].length (['\n'] ++ text) =
        (m.take o '\r' (['\n'] ++ text)).take o '\n' text := by
      have looked : (m.take o '\r' (['\n'] ++ text)).look o '\n' text =
          m.take o '\r' (['\n'] ++ text) := by
        rw [taken]
        exact look_lineBreak rfl (by exact resting) rfl text
      show step o '\n' text (m.take o '\r' (['\n'] ++ text)) = _
      rw [step, if_pos (by rw [taken]; exact held), looked]
    have ended := @broken_take o (m.take o '\r' (['\n'] ++ text)) '\n' text rfl rfl
      (by rw [taken]; exact held) (by rw [taken]; exact after)
    rw [fed]
    generalize (m.take o '\r' (['\n'] ++ text)).take o '\n' text = m' at ended ⊢
    rw [taken] at ended
    obtain ⟨y, last', context, kept'⟩ := ended.context
    exact { ended with
      context := by
        refine ⟨y, last', context, fun space => ?_⟩
        obtain ⟨rfl, rfl⟩ := kept space
        exact kept' space
      latest := ended.latest
      lines := ended.lines }

theorem broken_run {b : Char} {more text : List Char} (kind : b :: more ∈ lineBreaks)
    (lone : b :: more = ['\r'] → text.head? ≠ some '\n') (free : m.held = 0)
    (resting : (m.look o b (more ++ text)).style.isResting = true)
    (held : (m.look o b (more ++ text)).held = 0)
    (after : (m.look o b (more ++ text)).after = none) :
    Broken o (b :: more) (m.look o b (more ++ text))
      (m.run o (b :: more).length (b :: more ++ text)) := by
  have taken := @broken o _ b more text kind lone resting held after
  have step : (m.look o b (more ++ text)).take o b (more ++ text) = m.step o b (more ++ text) := by
    rw [step, if_pos free]
  rwa [step] at taken

/-! ### From line to line -/

/-- What two scans have written from `m` and `m'` on: the same lines, and the same styles but for
the length of the line breaks. -/
structure WritesAlike (br text : List Char) (m m' n n' : Machine) : Prop where
  written : ∃ styles lines, styles.length = text.length ∧ n.latest = styles.reverse ++ m.latest ∧
    n'.latest = (breakStyles br text styles).reverse ++ m'.latest ∧
    n.lines = lines ++ m.lines ∧ n'.lines = lines ++ m'.lines

theorem WritesAlike.trans {br text text' : List Char} {p p' : Machine}
    (h : WritesAlike br text m m' n n') (h' : WritesAlike br text' n n' p p') :
    WritesAlike br (text ++ text') m m' p p' := by
  obtain ⟨styles, lines, length, first, second, firstLines, secondLines⟩ := h
  obtain ⟨styles', lines', length', first', second', firstLines', secondLines'⟩ := h'
  refine ⟨styles ++ styles', lines' ++ lines, by simp [length, length'], ?_, ?_, ?_, ?_⟩
  · rw [first', first, List.reverse_append, List.append_assoc]
  · rw [second', second, breakStyles_append length, List.reverse_append, List.append_assoc]
  · rw [firstLines', firstLines, List.append_assoc]
  · rw [secondLines', secondLines, List.append_assoc]

theorem WritesAlike.of_broken {front br text text' text'' : List Char} {p p' z : Machine}
    (plain : '\n' ∉ front) (size : p'.latest.length = front.length)
    (alike : Alike o text text' m.latest m.lines p p') (broken : Broken o ['\n'] p n)
    (broken' : Broken o br p' z) (further : Alike o text'' text'' m'.latest m'.lines n' z) :
    WritesAlike br (front ++ ['\n']) m m' n n' := by
  refine ⟨p'.latest.reverse ++ [p'.style], p'.context.lineData o :: p'.lines, by simp [size],
    ?_, ?_, ?_, ?_⟩
  · rw [broken.latest, alike.latest, alike.style]
    simp
  · have feed : breakStyles br ['\n'] [p'.style] = List.replicate br.length p'.style := by
      simp [breakStyles]
    have length : p'.latest.reverse.length = front.length := by simp [size]
    rw [further.latest, broken'.latest, breakStyles_append length, breakStyles_plain plain length,
      feed]
    simp
  · rw [broken.lines, alike.lines, alike.context.lineData_eq]
    rfl
  · rw [further.lines, broken'.lines]

namespace Abreast

theorem fresh (o : ScanOptions) (text text' : List Char) :
    Abreast o (Machine.fresh text) (Machine.fresh text') where
  style := rfl
  resting := rfl
  held := ⟨rfl, rfl⟩
  after := ⟨rfl, rfl⟩
  previous := .inl rfl
  atLineStart := rfl
  context := ⟨rfl, rfl, rfl, rfl, rfl, rfl, rfl, fun _ => rfl, fun _ => rfl, fun _ => ⟨rfl, rfl⟩⟩
  interpolation := rfl
  mathPending := rfl
  level := fun _ => rfl

/-- What a machine has written does not matter to whether another one is abreast of it. -/
theorem of_alike {text : List Char} {styles : List Style} {lines : List LineData}
    (h : Abreast o m n) (alike : Alike o text text styles lines m' n) : Abreast o m m' where
  style := h.style.trans alike.style.symm
  resting := h.resting
  held := ⟨h.held.1, alike.held.trans h.held.2⟩
  after := ⟨h.after.1, alike.after.trans h.after.2⟩
  previous := h.previous.trans alike.previous.symm
  atLineStart := h.atLineStart.trans alike.atLineStart.symm
  context := {
    inValue := h.context.inValue.trans alike.context.inValue.symm
    inBrackets := h.context.inBrackets.trans alike.context.inBrackets.symm
    mathDepth := h.context.mathDepth.trans alike.context.mathDepth.symm
    parenDepth := h.context.parenDepth.trans alike.context.parenDepth.symm
    selectorDepth := h.context.selectorDepth.trans alike.context.selectorDepth.symm
    interpolation := alike.context.interpolation.trans h.context.interpolation
    mathPending := alike.context.mathPending.trans h.context.mathPending
    foldHere := fun fold => (h.context.foldHere fold).trans (alike.context.foldHere fold).symm
    foldNext := fun fold => (alike.context.foldNext fold).trans
      ((h.context.foldNext fold).trans (alike.context.foldHere fold).symm)
    last := fun space =>
      ⟨(h.context.last space).1.trans alike.context.lastChar.symm,
        (h.context.last space).2.trans alike.context.lastStyle.symm⟩ }
  interpolation := h.interpolation
  mathPending := h.mathPending
  level := h.level

/-- Behind line breaks at which they looked alike two machines are abreast. -/
theorem of_broken {text text' br br' : List Char} {styles : List Style} {lines : List LineData}
    {p p' : Machine} (alike : Alike o text text' styles lines p p')
    (resting : p.style.isResting = true) (settled : p.context.mathPending = false)
    (broken : Broken o br p m) (broken' : Broken o br' p' m') : Abreast o m m' := by
  obtain ⟨x, style, context, kept⟩ := broken.context
  obtain ⟨x', style', context', kept'⟩ := broken'.context
  have ended := alike.context.endLine
  exact {
    style := broken.style.trans (alike.style.trans broken'.style.symm)
    resting := broken.style ▸ resting
    held := ⟨broken.held, broken'.held⟩
    after := ⟨broken.after, broken'.after⟩
    previous := .of_lineBreak broken.previous broken'.previous
    atLineStart := broken.atLineStart.trans broken'.atLineStart.symm
    context := by
      rw [context, context', broken.style]
      exact {
        inValue := ended.inValue
        inBrackets := ended.inBrackets
        mathDepth := ended.mathDepth
        parenDepth := ended.parenDepth
        selectorDepth := ended.selectorDepth
        interpolation := rfl
        mathPending := alike.context.mathPending.symm.trans settled
        foldHere := ended.foldHere
        foldNext := fun _ => rfl
        last := by
          intro space
          obtain ⟨rfl, rfl⟩ := kept space
          obtain ⟨rfl, rfl⟩ := kept' (alike.style ▸ space)
          exact ⟨alike.context.lastChar, alike.context.lastStyle⟩ }
    interpolation := by rw [context]; rfl
    mathPending := by rw [context]; exact settled
    level := fun _ => by rw [context]; rfl }

/-- Over a line and its end. -/
theorem line {seen front text text' br : List Char} (h : Abreast o m m')
    (steady : Steady o seen (front ++ '\n' :: text) m)
    (goesOn : ∀ c ∈ front, isLineBreak c = false) (kind : br ∈ lineBreaks)
    (lone : br = ['\r'] → text'.head? ≠ some '\n') (solid : nextSolid text = nextSolid text') :
    Abreast o (m.run o (front.length + 1) (front ++ '\n' :: text))
        (m'.run o (front.length + br.length) (front ++ (br ++ text'))) ∧
      WritesAlike br (front ++ ['\n']) m m'
        (m.run o (front.length + 1) (front ++ '\n' :: text))
        (m'.run o (front.length + br.length) (front ++ (br ++ text'))) := by
  obtain ⟨b, more, rfl, breaks, blank⟩ : ∃ b more, br = b :: more ∧ isLineBreak b = true ∧
      nextSolid (b :: more) = none := by
    simp only [lineBreaks, List.mem_cons, List.not_mem_nil, or_false] at kind
    rcases kind with rfl | rfl | rfl <;> exact ⟨_, _, rfl, rfl, rfl⟩
  have ahead : nextSolid ('\n' :: text) = nextSolid (b :: more ++ text') := by
    rw [nextSolid_append, blank]
    exact solid
  have glance : Glance isLineBreak ('\n' :: text) (b :: more ++ text') :=
    .stop (.of_lineBreak rfl breaks) text (more ++ text')
  have start := h.alike (front ++ '\n' :: text) (front ++ (b :: more ++ text'))
  -- What the second machine has written, and inside a string what it remembers, does not matter.
  have same := h.alike_anew (front ++ (b :: more ++ text'))
  have further := same.run_same (front.length + (b :: more).length)
  rw [← h.run_anew (by simp only [List.length_cons]; omega) (by simp), ← List.drop_drop,
    List.drop_left, List.drop_left]
    at further
  generalize (m'.anew (front ++ (b :: more ++ text'))).update
    (Context.withLast m.context.lastChar m.context.lastStyle) = z at start further
  -- Both come to the end of the line alike, and look at its first character alike.
  have come := start.run_front goesOn glance (by simp) (by simp) ahead
  have came := steady.run front.length
  rw [List.drop_left] at came
  have looked := come.look
    { glance := glance.weaken isDull_of_isLineBreak
      closes := by rintro - ⟨⟩
      name := fun _ => .of_marks (iff_of_false (by decide) (ne_of_isLineBreak breaks rfl))
        (by rintro ⟨⟩) fun _ => by
          rw [ahead]
          exact SameMark.refl _ _ }
    (.of_ne (by decide) (ne_of_isLineBreak breaks rfl))
  have ready := came.ready rfl
  have done := @Ready.look o _ '\n' text _ ready
  obtain ⟨resting, held, after⟩ := done.rests rfl
  -- From there each takes its own line break.
  have first : Broken o ['\n'] ((m.run o front.length (front ++ '\n' :: text)).look o '\n' text)
      (m.run o (front.length + 1) (front ++ '\n' :: text)) := by
    rw [run_front_add]
    exact @broken_run o _ '\n' [] text (by decide) nofun ready.held resting held after
  have second : Broken o (b :: more)
      ((z.run o front.length (front ++ (b :: more ++ text'))).look o b (more ++ text'))
      (z.run o (front.length + (b :: more).length) (front ++ (b :: more ++ text'))) := by
    rw [run_front_add]
    exact broken_run kind lone (come.held.symm.trans ready.held) (looked.style ▸ resting)
      (looked.held.symm.trans held) (looked.after.symm.trans after)
  have size : ((z.run o front.length (front ++ (b :: more ++ text'))).look o b
      (more ++ text')).latest.length = front.length := by
    have nothing : z.latest = [] := by simpa using start.latest
    rw [(Finished.look _).styles, length_latest_run (by simp), nothing]
    exact Nat.zero_add _
  have plain : '\n' ∉ front := fun member => by
    have breaks := goesOn _ member
    cases breaks
  exact ⟨(of_broken looked resting done.settled first second).of_alike further,
    .of_broken plain size looked first second further⟩

/-- Behind the last line break, where the texts are the same. -/
theorem lastLine {text : List Char} (h : Abreast o m m') (br : List Char) (plain : '\n' ∉ text) :
    WritesAlike br text m m' (m.run o text.length text) (m'.run o text.length text) := by
  cases text with
  | nil => exact ⟨[], [], rfl, rfl, rfl, rfl, rfl⟩
  | cons c rest =>
    have alike := (h.alike (c :: rest) (c :: rest)).run_same (c :: rest).length
    have alike' := (h.alike_anew (c :: rest)).run_same (c :: rest).length
    rw [h.run_anew (by simp) (by simp)] at alike
    have size := @length_latest_run o _ (c :: rest) (Nat.le_refl _) (m'.anew (c :: rest))
    rw [show (m'.anew (c :: rest)).latest = [] from rfl, List.length_nil, Nat.zero_add] at size
    generalize (m'.anew (c :: rest)).run o (c :: rest).length (c :: rest) = z at alike alike' size
    have length : z.latest.reverse.length = (c :: rest).length := by simpa using size
    refine ⟨z.latest.reverse, z.lines, length, ?_, ?_, alike.lines, alike'.lines⟩
    · rw [List.reverse_reverse, alike.latest]
    · rw [breakStyles_plain plain length, List.reverse_reverse, alike'.latest]

/-- Over a text without carriage returns. -/
theorem run {br : List Char} (kind : br ∈ lineBreaks) {text : List Char} (plain : '\r' ∉ text)
    {seen : List Char} (h : Abreast o m m') (steady : Steady o seen text m) :
    WritesAlike br text m m' (m.run o text.length text)
      (m'.run o (breakLines br text).length (breakLines br text)) := by
  -- The induction is on the length: the first line is taken off with its end.
  induction size : text.length using Nat.strongRecOn generalizing text seen m m' with
  | ind _ ih =>
    subst size
    by_cases member : '\n' ∈ text
    case neg =>
      rw [breakLines_plain br member]
      exact h.lastLine br member
    obtain ⟨front, rest, rfl, before⟩ := List.eq_append_cons_of_mem member
    have goesOn : ∀ c ∈ front, isLineBreak c = false := by
      intro c inside
      have feed : c ≠ '\n' := fun same => before (same ▸ inside)
      have carriage : c ≠ '\r' := by
        rintro rfl
        exact plain (List.mem_append_left _ inside)
      simp [isLineBreak, feed, carriage]
    have broken : breakLines br (front ++ '\n' :: rest) = front ++ (br ++ breakLines br rest) := by
      rw [breakLines_append, breakLines_plain br before]
      rfl
    obtain ⟨abreast, first⟩ := h.line steady goesOn kind
      (by rintro rfl; exact head?_breakLines rest) (nextSolid_breakLines kind rest).symm
    have shorter : rest.length < (front ++ '\n' :: rest).length := by
      simp only [List.length_append, List.length_cons]
      omega
    have others := ih rest.length shorter (fun inside => plain (by simp [inside])) abreast
      (by simpa using steady.run (front.length + 1)) rfl
    have whole := first.trans others
    rw [List.append_assoc] at whole
    have length : (front ++ '\n' :: rest).length = front.length + 1 + rest.length := by
      simp only [List.length_append, List.length_cons]
      omega
    have length' : (front ++ (br ++ breakLines br rest)).length =
        front.length + br.length + (breakLines br rest).length := by
      simp only [List.length_append]
      omega
    rw [broken, length, length', run_add (front.length + 1), run_add (front.length + br.length)]
    simpa using whole

end Abreast

end Machine

namespace Document

variable {p : Place} {s : ScanSetup} {o : ScanOptions}

/-- With carriage returns, alone or in front of the line feeds, in the place of its line feeds a
text is highlighted as it was: every line has its fold level and its line state, every character
its style, and every character of a line break the style of the line feed. -/
theorem scanAll_breakLines (options : s.options p = .ok o) {text : List Char}
    (plain : '\r' ∉ text) {br : List Char} (kind : br = ['\r', '\n'] ∨ br = ['\r']) :
    ∃ d r d' r', (ofChars text).scanAll p s = .ok (d, r) ∧
      (ofChars (breakLines br text)).scanAll p s = .ok (d', r') ∧
      d.text = text ∧ d'.text = breakLines br text ∧ d'.lineCount = d.lineCount ∧
      d'.foldLevels = d.foldLevels ∧ d'.lineStates = d.lineStates ∧
      d.styles.length = text.length ∧ d'.styles = breakStyles br text d.styles := by
  have kind : br ∈ lineBreaks := by rcases kind with rfl | rfl <;> decide
  obtain ⟨d, r, scanned, sized, written⟩ := scanAll_written options text
  obtain ⟨d', r', scanned', sized', written'⟩ := scanAll_written options (breakLines br text)
  obtain ⟨styles, lines, length, first, second, firstLines, secondLines⟩ :=
    (Machine.Abreast.fresh o text (breakLines br text)).run kind plain (Machine.steady_fresh o text)
  have count : (lineStarts (breakLines br text)).length = (lineStarts text).length :=
    length_lineStarts_breakLines kind plain
  obtain ⟨foldLevels, lineStates⟩ :=
    written'.lineData_eq written (secondLines.trans firstLines.symm) count
  have found : d.styles = styles := by
    rw [written.styles_scanned, Machine.styles_eq]
    exact (congrArg List.reverse first).trans (by simp [Machine.fresh, Machine.startAt,
      Machine.latest])
  refine ⟨d, r, d', r', scanned, scanned', written.text, written'.text, ?_, foldLevels, lineStates,
    found ▸ length, ?_⟩
  · rw [lineCount, lineCount, written.text, written'.text]
    exact count
  · rw [written'.styles_scanned, Machine.styles_eq, found]
    exact (congrArg List.reverse second).trans (by simp [Machine.fresh, Machine.startAt,
      Machine.latest])

/-- A comment over two lines, and a string that a backslash takes over a third. -/
theorem scanAll_breakLines_comment :
    let text := ['/', '*', '\n', '*', '/', '\'', '\\', '\n', '\'']
    ∃ d r d' r', (ofChars text).scanAll default {} = .ok (d, r) ∧
      (ofChars ['/', '*', '\r', '\n', '*', '/', '\'', '\\', '\r', '\n', '\'']).scanAll
        default {} = .ok (d', r') ∧
      d'.foldLevels = d.foldLevels ∧ d'.lineStates = d.lineStates ∧
      d'.styles = breakStyles ['\r', '\n'] text d.styles := by
  obtain ⟨d, r, d', r', scanned, scanned', -, -, -, foldLevels, lineStates, -, styles⟩ :=
    @scanAll_breakLines default {} ⟨.standard, true, .builtin⟩ rfl
      ['/', '*', '\n', '*', '/', '\'', '\\', '\n', '\''] (by decide) _ (.inl rfl)
  exact ⟨d, r, d', r', scanned, scanned', foldLevels, lineStates, styles⟩

end Document

end CssHighlight
