import CssHighlight.Proofs.Accounting
import CssHighlight.Proofs.Editing
import CssHighlight.Proofs.Stored

/-!
# Fold levels

The fold levels of a scanned text follow from its styles alone: what the brackets of a line open
and close, and the comments that go on over the ends of the line above and of the line itself.
-/
namespace CssHighlight

/-- Whether a comment goes on behind styled characters. -/
def leavesOpen (entries : List (Char × Style)) : Int :=
  if entries.getLast?.any (·.2.isBlockComment) then 1 else 0

namespace Machine

variable {o : ScanOptions} {seen : List Char} {c : Char} {rest text : List Char} {m m' : Machine}

/-- What a step does to the level, given the context in front of the end of a line. -/
structure Stepped (o : ScanOptions) (seen : List Char) (c : Char) (rest : List Char)
    (m : Machine) (x : Context) : Prop where
  foldHere : x.foldHere = m.context.foldHere
  foldNext : x.foldNext + m.raised seen =
    m.context.foldNext + (m.step o c rest).raised (c :: seen)
  context : (m.step o c rest).context = if lastOfLine c rest then x.endLine o else x
  lines : (m.step o c rest).lines =
    if lastOfLine c rest then x.lineData o :: m.lines else m.lines
  braced : Braced rest (m.step o c rest)

/-- A character that was accounted for is taken. -/
theorem Accounted.stepped {m₁ : Machine} (h : Accounted seen c rest m m₁)
    (step : m.step o c rest = m₁.take o c rest)
    (foldHere : m₁.context.foldHere = m.context.foldHere) (lines : m₁.lines = m.lines)
    (waits : ∀ style, m₁.after = some style → style.isBlockComment = false) :
    Stepped o seen c rest m (m₁.context.remember m₁.style c) where
  foldHere := (Context.remember_calm m₁.style c m₁.context).foldHere.trans foldHere
  foldNext := by
    rw [step, raised_take o seen c rest waits, ← h.level, Context.remember_foldNext]
  context := by rw [step, context_take]
  lines := by rw [step, lines_take, lines]
  braced := by
    rw [step]
    intro operator busy
    cases take_taken o c rest m₁ with
    | released _ _ _ _ idle => exact absurd idle busy
    | goesOn _ style _ held =>
      rw [held] at busy ⊢
      exact h.braced (style ▸ operator) busy

/-- A character that is held was accounted for with the one that holds it. -/
theorem Braced.accounted (h : Braced (c :: rest) m) (busy : m.held ≠ 0) :
    Accounted seen c rest m { m with held := m.held - 1 } := by
  have counted : ({ m with held := m.held - 1 } : Machine).heldBrace + balance [(c, m.style)] =
      m.heldBrace := by
    by_cases operator : m.style = .operator
    · obtain ⟨one, brace⟩ := h operator busy
      obtain rfl : c = '{' := Option.some.inj brace
      rw [heldBrace_free (by simp [one]), heldBrace, if_pos ⟨operator, busy⟩, operator]
      rfl
    · rw [balance_other operator, heldBrace, heldBrace, if_neg fun brace => operator brace.1,
        if_neg fun brace => operator brace.1, Int.add_zero]
  refine ⟨?_, fun operator busy' => ?_⟩
  · rw [raised, raised, ← counted]
    simp only [latest, openComment]
    omega
  · have one := (h operator busy).1
    exact absurd (show m.held - 1 = 0 by omega) busy'

theorem Braced.step (steady : Steady o seen (c :: rest) m) (h : Braced (c :: rest) m) :
    ∃ x, Stepped o seen c rest m x := by
  by_cases held : m.held = 0
  · have ready : Ready seen m := { steady with held := held, after := steady.idle held }
    have step : m.step o c rest = (m.look o c rest).take o c rest := if_pos held
    have looked := @Ready.look o seen c rest m ready
    exact ⟨_, ready.accounts.stepped step (look_nests held).foldHere (Finished.look m).lines
      fun style after => Style.isBlockComment_of_isBase (looked.after style after)⟩
  · have step : m.step o c rest = { m with held := m.held - 1 }.take o c rest := if_neg held
    exact ⟨_, (h.accounted held).stepped step rfl rfl
      fun style after => Style.isBlockComment_of_isBase (steady.after style after)⟩

/-- What a scan does to the level as long as no line ends. -/
structure Within (seen seen' : List Char) (m m' : Machine) : Prop where
  foldHere : m'.context.foldHere = m.context.foldHere
  foldNext : m'.context.foldNext + m.raised seen = m.context.foldNext + m'.raised seen'
  lines : m'.lines = m.lines

theorem Braced.run (n : Nat) (steady : Steady o seen text m) (h : Braced text m)
    (inside : finishedLines n text = 0) :
    Within seen ((text.take n).reverse ++ seen) m (m.run o n text) ∧
      Braced (text.drop n) (m.run o n text) := by
  induction n generalizing seen text m with
  | zero => exact ⟨⟨rfl, rfl, rfl⟩, h⟩
  | succ n ih =>
    cases text with
    | nil => exact ⟨⟨rfl, rfl, rfl⟩, h⟩
    | cons c rest =>
      rw [finishedLines_cons] at inside
      have goesOn : lastOfLine c rest = false := by
        cases last : lastOfLine c rest with
        | false => rfl
        | true => simp [last] at inside
      obtain ⟨x, first⟩ := h.step steady
      obtain ⟨others, braced⟩ := ih steady.step first.braced (by omega)
      -- The first step and the others account for their characters, and the accounts add up.
      have context : (m.step o c rest).context = x := by simpa [goesOn] using first.context
      have lines : (m.step o c rest).lines = m.lines := by simpa [goesOn] using first.lines
      have before := first.foldNext
      have behind := others.foldNext
      rw [context] at behind
      rw [List.take_succ_cons, List.reverse_cons, List.append_assoc]
      refine ⟨⟨?_, ?_, others.lines.trans lines⟩, braced⟩
      · rw [run, others.foldHere, context, first.foldHere]
      · rw [run]
        show _ = _ + raised (_ ++ (c :: seen)) _
        omega

/-- The level behind the last character of a line, and the data of the line. -/
structure EndsLine (before behind : Int) (m m' : Machine) : Prop where
  foldHere : m'.context.foldHere = Context.clampFold (m.context.foldNext + behind - before)
  lines : ∃ state, m'.lines =
    ⟨some (FoldLevel.pack m.context.foldHere.toNat m'.context.foldHere.toNat), state⟩ :: m.lines

theorem Braced.endsLine {n : Nat} (steady : Steady o seen text m) (h : Braced text m)
    (fold : o.fold = true) (inside : finishedLines n text = 0) (cut : text.drop n = c :: rest)
    (ends : lastOfLine c rest = true) :
    EndsLine (m.raised seen)
      ((m.run o (n + 1) text).raised (c :: ((text.take n).reverse ++ seen))) m
      (m.run o (n + 1) text) := by
  obtain ⟨within_, braced⟩ := h.run n steady inside
  have last := steady.run n
  have step : m.run o (n + 1) text = (m.run o n text).step o c rest := by
    rw [run_add, cut]
    rfl
  rw [cut] at braced last
  -- What the last character leaves is clamped, and stored together with the level of the line.
  obtain ⟨x, taken⟩ := braced.step last
  have level := taken.foldNext
  have begun := within_.foldNext
  rw [← step] at level
  have foldHere : (m.run o (n + 1) text).context.foldHere = Context.clampFold x.foldNext := by
    rw [step, taken.context, if_pos ends, Context.endLine, if_pos fold]
  refine ⟨?_, LineState.pack x, ?_⟩
  · rw [foldHere]
    congr 1
    omega
  · rw [foldHere, step, taken.lines, if_pos ends, within_.lines, Context.lineData, if_pos fold,
      taken.foldHere, within_.foldHere]

/-! ### Where lines start -/

/-- With nothing held or waiting only a comment may be open, and the last character shows it. -/
theorem raised_resting (held : m.held = 0) (after : m.after = none) (some : m.runLength ≠ 0)
    (size : m.latest.length = seen.length) : m.raised seen =
      balance (seen.reverse.zip m.styles) + leavesOpen (seen.reverse.zip m.styles) := by
  have entries : seen.reverse.zip m.styles = (seen.zip m.latest).reverse := by
    rw [styles_eq]
    exact (List.reverse_zipWith size.symm).symm
  obtain ⟨k, length⟩ := Nat.exists_eq_succ_of_ne_zero some
  have latest : m.latest = m.style :: (List.replicate k m.style ++ m.painted) := by
    rw [Machine.latest, length, List.replicate_succ, List.cons_append]
  have open_ : leavesOpen (seen.zip m.latest).reverse = m.openComment := by
    cases seen with
    | nil => simp [latest] at size
    | cons b seen =>
      rw [leavesOpen, List.getLast?_reverse, latest, openComment]
      cases block : m.style.isBlockComment <;> simp [block, after]
  rw [entries, open_, balance_reverse, raised, heldBrace_free held, Int.add_zero]

/-- The machine in front of a line: nothing is held, the level is that of the line, and only a
comment may be open. -/
structure Begins (front : List Char) (m : Machine) : Prop where
  held : m.held = 0
  level : m.context.foldNext = m.context.foldHere
  raised : m.raised front.reverse =
    balance (front.zip m.styles) + leavesOpen (front.zip m.styles)

theorem begins_scanned (o : ScanOptions) {start : Nat} {text : List Char}
    (member : start ∈ lineStarts text) : Begins (text.take start) (scanned o start text) := by
  rcases Nat.eq_zero_or_pos start with rfl | positive
  · exact ⟨rfl, rfl, rfl⟩
  · obtain ⟨_, _, -, -, breaks, -, steady, recorded⟩ := steady_lineStart o member positive
    obtain ⟨-, held, some⟩ := steady.rests (by rw [steady.previous]; exact breaks)
    have size := (steady_scanned o start text).size
    have raised := raised_resting held (steady.idle held) some size
    rw [List.reverse_reverse] at raised
    exact ⟨held, recorded.level, raised⟩

/-- From the start of a line to that of the next one. -/
theorem scanned_line (fold : o.fold = true) {start next : Nat} (here : start ∈ lineStarts text)
    (below : next ∈ lineStarts text) (less : start < next)
    (adjacent : finishedLines next text = finishedLines start text + 1) :
    EndsLine ((scanned o start text).raised (text.take start).reverse)
      ((scanned o next text).raised (text.take next).reverse)
      (scanned o start text) (scanned o next text) := by
  obtain ⟨before, c, rest, cut, rfl, ends⟩ :=
    (mem_lineStarts_iff.mp below).resolve_left (by omega)
  obtain ⟨n, length⟩ := Nat.exists_eq_add_of_le (Nat.le_of_lt_succ less)
  have behind : text.drop before.length = c :: rest := by rw [cut, List.drop_left]
  have last : lastOfLine c rest = true := by simp [lastOfLine, ends]
  -- Only the last character of the piece ends a line.
  have inside : finishedLines n (text.drop start) = 0 := by
    have whole := finishedLines_add before.length 1 text
    rw [behind, finishedLines_cons, if_pos last, adjacent] at whole
    have piece := finishedLines_add start n text
    rw [← length] at piece
    simp only [finishedLines, countAhead] at whole piece ⊢
    omega
  have steady := steady_scanned o start text
  have braced : Braced (text.drop start) (scanned o start text) := fun _ busy =>
    absurd (begins_scanned o here).held busy
  have cut' : (text.drop start).drop n = c :: rest := by rw [List.drop_drop, ← length, behind]
  have line := braced.endsLine steady fold inside cut' last
  have seen : c :: (((text.drop start).take n).reverse ++ (text.take start).reverse) =
      (text.take (before.length + 1)).reverse := by
    rw [List.take_add, behind, length, List.take_add, List.reverse_append, List.reverse_append]
    rfl
  rw [seen, ← scanned_add, ← Nat.add_assoc, ← length] at line
  exact line

end Machine

namespace Document

/-- The styled characters of a line. -/
def lineEntries (d : Document) (line : Nat) : List (Char × Style) :=
  ((d.text.zip d.styles).take (d.startOf (line + 1))).drop (d.startOf line)

/-- Whether a comment goes on into a line. -/
def openInto (d : Document) : Nat → Int
  | 0 => 0
  | line + 1 => leavesOpen (d.lineEntries line)

variable {p : Place} {s : ScanSetup} {o : ScanOptions} {d : Document} {line : Nat}

/-- The styled characters in front of a line. -/
def front (d : Document) (line : Nat) : List (Char × Style) :=
  (d.text.zip d.styles).take (d.startOf line)

theorem front_succ (below : line + 1 < d.lineCount) :
    d.front (line + 1) = d.front line ++ d.lineEntries line := by
  have less : d.startOf line < d.startOf (line + 1) := lineStart_lt_succ below
  have whole := List.take_append_drop (d.startOf line)
    ((d.text.zip d.styles).take (d.startOf (line + 1)))
  rw [List.take_take, Nat.min_eq_left (Nat.le_of_lt less)] at whole
  exact whole.symm

/-- Behind a line with another one below it a comment goes on as it does behind all that stands in
front of the other one. -/
theorem leavesOpen_front (sized : d.Sized) (below : line < d.lineCount) :
    leavesOpen (d.front line) = d.openInto line := by
  cases line with
  | zero => rfl
  | succ line =>
    have less : d.startOf line < d.startOf (line + 1) := lineStart_lt_succ below
    have fits := le_length_of_mem_lineStarts (startOf_line below).1
    have some : d.lineEntries line ≠ [] := by
      refine List.ne_nil_of_length_pos ?_
      simp only [lineEntries, List.length_drop, List.length_take, List.length_zip, sized.styles]
      rw [Int.natCast_succ] at fits
      omega
    rw [front_succ below, openInto, leavesOpen, leavesOpen, List.getLast?_append,
      List.getLast?_eq_some_getLast some, Option.some_or]

namespace ScannedTo

theorem raised_line (h : d.ScannedTo o d.text.length) (below : line < d.lineCount) :
    (Machine.scanned o (d.startOf line) d.text).raised (d.text.take (d.startOf line)).reverse =
      balance (d.front line) + d.openInto line := by
  have member := (startOf_line below).1
  have back := h.back member (le_length_of_mem_lineStarts member)
  have entries : (d.text.take (d.startOf line)).zip
      (Machine.scanned o (d.startOf line) d.text).styles = d.front line := by
    rw [← back.styles_take]
    exact List.take_zipWith.symm
  rw [(Machine.begins_scanned o member).raised, entries, leavesOpen_front h.toSized below]

/-- What a scan does from the start of a line to that of the next one. -/
theorem endsLine (h : d.ScannedTo o d.text.length) (fold : o.fold = true)
    (below : line + 1 < d.lineCount) :
    Machine.EndsLine (balance (d.front line) + d.openInto line)
      (balance (d.front (line + 1)) + d.openInto (line + 1))
      (Machine.scanned o (d.startOf line) d.text)
      (Machine.scanned o (d.startOf (line + 1)) d.text) := by
  have above : line < d.lineCount := Nat.lt_of_succ_lt below
  obtain ⟨here, count⟩ := startOf_line above
  obtain ⟨next, count'⟩ := startOf_line below
  have adjacent : finishedLines (d.startOf (line + 1 : Nat)) d.text =
      finishedLines (d.startOf line) d.text + 1 := by
    rw [finishedLines_lineStart here, finishedLines_lineStart next, count, count']
  have whole := Machine.scanned_line fold here next (lineStart_lt_succ below) adjacent
  rw [h.raised_line above, h.raised_line below] at whole
  exact whole

end ScannedTo

end Document

end CssHighlight
