import CssHighlight.Proofs.Scanned

/-!
# Texts with a shared front

Two texts that share their front, up to the start of a line, are scanned alike there, unless the
name or the parenthesis in front of that line looks for a solid character behind the shared front
and finds one that makes a difference.
-/
namespace CssHighlight

/-! ### The first solid character behind a shared front -/

theorem nextSolid_append (front text : List Char) :
    Machine.nextSolid (front ++ text) = (Machine.nextSolid front).or (Machine.nextSolid text) :=
  List.find?_append

theorem isSeparator_of_isRunChar {c : Char} (run : isRunChar c = true) : isSeparator c = false := by
  refine Bool.eq_false_iff.mpr ?_
  intro blank
  rcases separator_cases blank with rfl | rfl | rfl | rfl | rfl | rfl <;>
    exact Bool.noConfusion run

/-- Behind blanks the last solid character of a text decides. -/
theorem marksBehind_of_blank {before blank : List Char} {c : Char}
    (solid : isSeparator c = false) (blanks : Machine.nextSolid blank = none) :
    marksBehind (before ++ c :: blank) =
      if c = '(' then addressMarks else if isRunChar c then nameMarks else [] := by
  have behind : blank.reverse.find? (fun c => !isSeparator c) = none := by
    rw [List.find?_eq_none]
    intro x member
    exact List.find?_eq_none.mp blanks x (List.mem_reverse.mp member)
  simp [marksBehind, behind, solid]

/-- A name that ends within a shared front finds the same marks in both texts. -/
theorem sameSolid_of_marksBehind {before blank text text' : List Char} {x c : Char}
    (name : isRunChar x = true)
    (marks : SameMark (marksBehind (before ++ x :: c :: blank)) (Machine.nextSolid text)
      (Machine.nextSolid text')) :
    SameSolid c (blank ++ text) (blank ++ text') := by
  unfold SameSolid
  split
  next opens =>
    subst opens
    rw [nextSolid_append, nextSolid_append]
    cases found : Machine.nextSolid blank with
    -- A solid character within the shared front is the same for both.
    | some y => exact SameMark.refl _ _
    | none =>
      have last : marksBehind ((before ++ [x]) ++ '(' :: blank) = addressMarks :=
        (marksBehind_of_blank rfl found).trans (if_pos rfl)
      rw [List.append_assoc, List.singleton_append] at last
      rwa [last] at marks
  next other =>
    rw [← List.cons_append, ← List.cons_append, nextSolid_append, nextSolid_append]
    cases found : Machine.nextSolid (c :: blank) with
    | some y => exact SameMark.refl _ _
    | none =>
      have notParen : x ≠ '(' := by
        rintro rfl
        exact Bool.noConfusion name
      have last : marksBehind (before ++ x :: c :: blank) = nameMarks := by
        rw [marksBehind_of_blank (isSeparator_of_isRunChar name) found, if_neg notParen,
          if_pos name]
      rwa [last] at marks

namespace Machine

variable {o : ScanOptions} {front text text' : List Char} {b : Char}

theorem scanned_succ {n : Nat} {text : List Char} {c : Char} {rest : List Char}
    (ahead : text.drop n = c :: rest) :
    scanned o (n + 1) text = (scanned o n text).step o c rest := by
  rw [scanned_add, ahead]
  rfl

theorem alike_fresh (o : ScanOptions) (text text' : List Char) :
    Alike o text text' [] [] (fresh text) (fresh text') where
  style := rfl
  held := rfl
  after := rfl
  waits := by rintro _ ⟨⟩
  previous := .inl rfl
  atLineStart := rfl
  run := fun _ => ⟨[], rfl, rfl, rfl, rfl⟩
  context := Context.Alike.refl o _ (fun _ => rfl) (by rintro _ ⟨⟩)
  latest := rfl
  lines := rfl

theorem Steady.sameSolid {m : Machine} {taken ahead : List Char} {c : Char} {all : List Char}
    (h : Steady o taken.reverse all m) (name : m.style = .identifier)
    (marks : SameMark (marksBehind (taken ++ c :: ahead)) (nextSolid text) (nextSolid text')) :
    SameSolid c (ahead ++ text) (ahead ++ text') := by
  have run := (h.name name).2
  rw [h.previous, List.head?_reverse] at run
  cases last : taken.getLast? with
  | none => simp [last] at run
  | some x =>
    obtain ⟨before, rfl⟩ := List.getLast?_eq_some_iff.mp last
    rw [List.append_assoc, List.singleton_append] at marks
    exact sameSolid_of_marksBehind (by simpa using run) marks

/-- Before the last character of a shared front, which breaks the line, the scans are alike. -/
theorem alike_scanned (breaks : isLineBreak b = true)
    (marks : SameMark (marksBehind (front ++ [b])) (nextSolid text) (nextSolid text')) {n : Nat}
    (le : n ≤ front.length) :
    Alike o ((front ++ b :: text).drop n) ((front ++ b :: text').drop n) [] []
      (scanned o n (front ++ b :: text)) (scanned o n (front ++ b :: text')) := by
  induction n with
  | zero => exact alike_fresh o _ _
  | succ n ih =>
    have before := ih (Nat.le_of_succ_le le)
    obtain ⟨c, rest, ahead⟩ : ∃ c rest, front.drop n = c :: rest :=
      ⟨_, _, List.drop_eq_getElem_cons le⟩
    have behind : front.drop (n + 1) = rest := by
      rw [← List.drop_drop, ahead]
      rfl
    have cut (text : List Char) : (front ++ b :: text).drop n = c :: (rest ++ b :: text) := by
      rw [List.drop_append_of_le_length (Nat.le_of_succ_le le), ahead, List.cons_append]
    have further (text : List Char) : (front ++ b :: text).drop (n + 1) = rest ++ b :: text := by
      rw [List.drop_append_of_le_length le, behind]
    rw [cut, cut] at before
    rw [further, further, scanned_succ (cut text), scanned_succ (cut text')]
    -- Up to the line break the texts look the same to every rule but the one that ends a name.
    have line : Glance isLineBreak (c :: rest ++ b :: text) (c :: rest ++ b :: text') :=
      (Glance.stop (.of_lineBreak breaks breaks) text text').append (c :: rest)
    refine before.step (fun _ => .of_glance line fun name => .of_solid ?_) (fun _ => line.slash) ?_
    · have steady := steady_scanned o n (front ++ b :: text)
      rw [List.take_append_of_le_length (Nat.le_of_succ_le le)] at steady
      have whole : front ++ [b] = front.take n ++ c :: (rest ++ [b]) := by
        rw [← List.cons_append, ← ahead, ← List.append_assoc, List.take_append_drop]
      rw [whole] at marks
      simpa using steady.sameSolid name marks
    · cases rest <;> simp [lastOfLine, endsLine]

/-! ### The last character of a shared front -/

/-- A line break in the middle of another one is looked at without a trace. -/
theorem look_lineBreak {m : Machine} {c : Char} (breaks : isLineBreak c = true)
    (resting : m.style.isResting = true) (inside : m.atLineStart = false) (rest : List Char) :
    m.look o c rest = m := by
  have comment : c ≠ '*' := by
    rintro rfl
    exact Bool.noConfusion breaks
  have other : m.style ≠ .escapeChar := fun same => by simp [same, Style.isResting] at resting
  rw [look, if_neg other, stepRun]
  split
  case h_1 => exact startToken_lineBreak o breaks rest m
  case h_20 => rfl
  all_goals
    rename_i style
    first
      | exact stepQuoted_lineBreak o breaks rest m
      | exact if_neg (by simp [comment, inside])
      | simp [style, Style.isResting] at resting

@[simp] theorem lineData_remember (style : Style) (c : Char) (context : Context) :
    (context.remember style c).lineData o = context.lineData o := by
  unfold Context.remember
  split <;> rfl

theorem Steady.ready {seen rest : List Char} {c : Char} {m : Machine}
    (h : Steady o seen (c :: rest) m) (breaks : isLineBreak c = true) : Ready seen m := by
  -- No rule holds a line break back.
  have free : m.held = 0 := Nat.eq_zero_of_not_pos fun busy => by
    obtain ⟨k, count⟩ := Nat.exists_eq_succ_of_ne_zero (Nat.ne_of_gt busy)
    have held := h.held c (by rw [count]; exact List.mem_cons_self)
    rw [breaks] at held
    exact Bool.noConfusion held
  exact { h with held := free, after := h.idle free }

theorem step_lineBreak {seen rest : List Char} {c : Char} {m : Machine}
    (h : Steady o seen (c :: rest) m) (breaks : isLineBreak c = true) :
    m.step o c rest = (m.look o c rest).take o c rest := by
  rw [step, if_pos (h.ready breaks).held]

/-- A line feed behind a carriage return only ends the line, whose data is fixed when the carriage
return is looked at. -/
theorem step_feed {seen rest : List Char} {m : Machine}
    (h : Steady o seen ('\r' :: '\n' :: rest) m) :
    ((m.step o '\r' ('\n' :: rest)).step o '\n' rest).lines =
        (m.look o '\r' ('\n' :: rest)).context.lineData o :: m.lines ∧
      ∃ style, ((m.step o '\r' ('\n' :: rest)).step o '\n' rest).latest =
        style :: (m.step o '\r' ('\n' :: rest)).latest := by
  have looked : Looked seen '\r' ('\n' :: rest) (m.look o '\r' ('\n' :: rest)) :=
    (h.ready rfl).look
  have lines := (@Finished.look o '\r' ('\n' :: rest) m).lines
  rw [step_lineBreak h.step rfl, step_lineBreak h rfl]
  generalize m.look o '\r' ('\n' :: rest) = m' at looked lines ⊢
  obtain ⟨resting, -, after⟩ := looked.rests rfl
  have taken : m'.take o '\r' ('\n' :: rest) = { m' with
      runLength := m'.runLength + 1
      previous := some '\r'
      atLineStart := false
      context := m'.context.remember m'.style '\r' } := by
    simp [take, release, after, lastOfLine, endsLine]
  rw [taken, look_lineBreak rfl (by exact resting) rfl, lines_take, latest_take]
  exact ⟨by simp [lastOfLine, endsLine, lines], _, rfl⟩

/-- A line break that ends no line is the first half of a longer one. -/
theorem feed_of_lineBreak {c : Char} {rest : List Char} (breaks : isLineBreak c = true)
    (goesOn : lastOfLine c rest = false) : c = '\r' ∧ ∃ behind, rest = '\n' :: behind := by
  rcases lineBreak_cases breaks with rfl | rfl
  · simp [lastOfLine, endsLine] at goesOn
  · cases rest with
    | nil => simp [lastOfLine] at goesOn
    | cons x behind =>
      obtain rfl : x = '\n' := by simpa [lastOfLine, endsLine] using goesOn
      exact ⟨rfl, behind, rfl⟩

theorem alike_look (breaks : isLineBreak b = true)
    (marks : SameMark (marksBehind (front ++ [b])) (nextSolid text) (nextSolid text')) :
    Alike o (b :: text) (b :: text') [] []
      ((scanned o front.length (front ++ b :: text)).look o b text)
      ((scanned o front.length (front ++ b :: text')).look o b text') := by
  have alike := alike_scanned (o := o) breaks marks (Nat.le_refl front.length)
  have steady := steady_scanned o front.length (front ++ b :: text)
  rw [List.take_left] at steady
  rw [List.drop_left, List.drop_left] at alike
  rw [List.drop_left] at steady
  have line : Glance isLineBreak (b :: text) (b :: text') :=
    .stop (.of_lineBreak breaks breaks) text text'
  refine alike.look (.of_glance line fun name => .of_solid ?_) line.slash
  exact steady.sameSolid name marks

theorem scanned_lineBreak (breaks : isLineBreak b = true) (front text : List Char) :
    scanned o (front.length + 1) (front ++ b :: text) =
      ((scanned o front.length (front ++ b :: text)).look o b text).take o b text := by
  have steady := steady_scanned o front.length (front ++ b :: text)
  rw [List.drop_left] at steady
  rw [scanned_succ List.drop_left, step_lineBreak steady breaks]

theorem latest_shared (breaks : isLineBreak b = true)
    (marks : SameMark (marksBehind (front ++ [b])) (nextSolid text) (nextSolid text')) :
    (scanned o (front.length + 1) (front ++ b :: text)).latest =
      (scanned o (front.length + 1) (front ++ b :: text')).latest := by
  have looked := alike_look (o := o) breaks marks
  rw [scanned_lineBreak breaks, scanned_lineBreak breaks, latest_take, latest_take, looked.style,
    looked.latest, List.append_nil]

/-- Where the line of the second text ends, its data is what the first text gives it so far. -/
theorem lines_shared (ends : endsLine b text' = true)
    (marks : SameMark (marksBehind (front ++ [b])) (nextSolid text) (nextSolid text')) :
    (scanned o (front.length + 1) (front ++ b :: text')).lines =
      ((scanned o front.length (front ++ b :: text)).look o b text).context.lineData o ::
        (scanned o front.length (front ++ b :: text)).lines := by
  have breaks := isLineBreak_of_endsLine ends
  have looked := alike_look (o := o) breaks marks
  have lines := looked.lines
  rw [List.append_nil, (Finished.look (scanned o front.length (front ++ b :: text))).lines] at lines
  rw [scanned_lineBreak breaks, lines_take, if_pos (by simp [lastOfLine, ends]),
    lineData_remember, looked.context.lineData_eq, lines]

/-- Where a line starts behind a shared front in the second text, a scan of the whole first text
has given the front the same styles, and has finished the lines of the front with the same data. -/
theorem scanned_shared (o : ScanOptions) (ends : endsLine b text' = true)
    (marks : SameMark (marksBehind (front ++ [b])) (nextSolid text) (nextSolid text')) :
    (∃ styles, (scanned o (front ++ b :: text).length (front ++ b :: text)).latest =
        styles ++ (scanned o (front.length + 1) (front ++ b :: text')).latest) ∧
      ∃ lines, (scanned o (front ++ b :: text).length (front ++ b :: text)).lines =
        lines ++ (scanned o (front.length + 1) (front ++ b :: text')).lines := by
  have breaks := isLineBreak_of_endsLine ends
  have within : front.length + 1 ≤ (front ++ b :: text).length := by simp
  rw [← latest_shared breaks marks, lines_shared ends marks]
  -- In the first text the line may go on with a line feed, and then it ends one step later.
  cases last : lastOfLine b text with
  | true =>
    have finished : (scanned o (front.length + 1) (front ++ b :: text)).lines =
        ((scanned o front.length (front ++ b :: text)).look o b text).context.lineData o ::
          (scanned o front.length (front ++ b :: text)).lines := by
      rw [scanned_lineBreak breaks, lines_take, if_pos last, lineData_remember,
        (Finished.look _).lines]
    rw [← finished]
    refine ⟨?_, lines_extends o _ within⟩
    cases text with
    | nil => exact ⟨[], by simp⟩
    | cons x behind =>
      have ends : endsLine b (x :: behind) = true := by simpa [lastOfLine] using last
      exact scanned_extends o (mem_lineStarts_iff.mpr (.inr ⟨_, _, _, rfl, rfl, ends⟩)) within
  | false =>
    obtain ⟨rfl, behind, rfl⟩ := feed_of_lineBreak breaks last
    have within : front.length + 1 + 1 ≤ (front ++ '\r' :: '\n' :: behind).length := by
      simp only [List.length_append, List.length_cons]
      omega
    have feed : (front ++ '\r' :: '\n' :: behind).drop (front.length + 1) = '\n' :: behind := by
      rw [← List.drop_drop, List.drop_left]
      rfl
    have start : front.length + 1 + 1 ∈ lineStarts (front ++ '\r' :: '\n' :: behind) :=
      mem_lineStarts_iff.mpr (.inr ⟨front ++ ['\r'], '\n', behind, by simp, by simp, rfl⟩)
    have steady := steady_scanned o front.length (front ++ '\r' :: '\n' :: behind)
    rw [List.drop_left] at steady
    obtain ⟨data, style, fed⟩ := step_feed steady
    rw [← scanned_succ List.drop_left, ← scanned_succ feed] at data fed
    rw [← data]
    refine ⟨?_, lines_extends o _ within⟩
    obtain ⟨styles, extended⟩ := scanned_extends o start within
    rw [extended, fed]
    exact ⟨styles ++ [style], by simp⟩

end Machine

end CssHighlight
