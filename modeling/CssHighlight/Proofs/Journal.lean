import CssHighlight.Proofs.Misuse
import CssHighlight.Scan.Journal

/-!
# The journal of a scan

Keeping a journal changes nothing about a scan, and what the journal holds makes of the document
what the scan makes of it. So the journal tells what a scan writes: it finishes the characters of
its range one after the other, gives each of them a style once, and writes the data of a line once
for each line with characters whose last one lies in the range.

Every computation that writes is followed by the one that also keeps the journal, with what the
journal has of it afterwards. Walks are followed by their own counters: the position, the start of
the run in progress and the line.
-/
namespace CssHighlight

namespace Document

theorem replay_append (d : Document) (acts more : List Act) :
    d.replay (acts ++ more) = (d.replay acts >>= fun d => d.replay more) :=
  List.foldlM_append

end Document

namespace Writing

variable {α β ε : Type}

/-- A computation writes nothing. -/
def Reads (y : Writing α) : Prop :=
  ∀ d, (y.on d).2 = d

theorem reads_check (fault : ε → ScanFault) (found : Except ε α) : Reads (check fault found) := by
  intro d
  rw [on_check]
  cases found <;> rfl

theorem Reads.bind {y : Writing α} {g : α → Writing β} (h : Reads y)
    (next : ∀ a, Reads (g a)) : Reads (y >>= g) := by
  intro d
  have keeps := h d
  rw [on_bind]
  rcases found : y.on d with ⟨fault | a, d'⟩
  · rw [found] at keeps
    exact keeps
  · rw [found] at keeps
    exact (next a d').trans keeps

theorem reads_readChar (position : Nat) : Reads (readChar position) := by
  refine Reads.bind (fun _ => rfl) fun d => ?_
  cases d.text[position]? <;> exact fun _ => rfl

theorem reads_readContext (start : Nat) (initStyle : Style) :
    Reads (readContext start initStyle) := by
  have line : Reads (readLine start) := by
    refine Reads.bind (fun _ => rfl) fun d => ?_
    refine iteInduction (fun _ => ?_) fun _ _ => rfl
    exact (reads_check _ _).bind fun _ => (reads_check _ _).bind fun _ => reads_check _ _
  refine line.bind fun x => ?_
  refine iteInduction (fun _ => ?_) fun _ _ => rfl
  refine Reads.bind (fun _ => rfl) fun d => ?_
  exact (reads_check _ _).bind fun _ _ => rfl

end Writing

namespace Walk

theorem reads_readFirst (w : Walk) : Writing.Reads w.readFirst := by
  refine iteInduction (fun _ => ?_) fun _ _ => rfl
  exact (Writing.reads_readChar _).bind fun _ _ => rfl

end Walk

/-! ### A computation and its journal -/

namespace Recording

variable {α β : Type} {x : Recording α} {y : Writing α} {d : Document}

theorem on_bind (x : Recording α) (f : α → Recording β) (d : Document) (acts : List Act) :
    Recording.on (x >>= f) d acts = match x.on d acts with
      | (.ok a, d', acts') => (f a).on d' acts'
      | (.error fault, d', acts') => (.error fault, d', acts') := by
  unfold Recording.on ExceptT.run StateT.run
  simp only [bind, ExceptT.bind, ExceptT.mk, StateT.bind]
  cases x (d, acts) with
  | mk result left => cases result <;> rfl

/-- A computation does with a journal what it does without one. The journal grows by what makes of
the document what the computation makes of it, and by what is stated about it. -/
def Follows (x : Recording α) (y : Writing α) (d : Document) (P : α → List Act → Prop) : Prop :=
  ∃ new, (∀ acts, x.on d acts = ((y.on d).1, (y.on d).2, acts ++ new)) ∧
    d.replay new = .ok (y.on d).2 ∧ ∀ a, (y.on d).1 = .ok a → P a new

namespace Follows

variable {P P' : α → List Act → Prop} {Q : β → List Act → Prop}

theorem mono (h : Follows x y d P) (weaker : ∀ a new, P a new → P' a new) :
    Follows x y d P' := by
  obtain ⟨new, runs, replays, holds⟩ := h
  exact ⟨new, runs, replays, fun a found => weaker a new (holds a found)⟩

theorem pure {a : α} (holds : P a []) : Follows (Pure.pure a) (Pure.pure a) d P := by
  refine ⟨[], fun acts => ?_, rfl, ?_⟩
  · rw [List.append_nil]
    rfl
  · intro a' found
    obtain rfl : a = a' := Except.ok.inj found
    exact holds

theorem silently (reads : Writing.Reads y) (holds : ∀ a, (y.on d).1 = .ok a → P a []) :
    Follows (Recording.silently y) y d P := by
  refine ⟨[], fun acts => ?_, ?_, holds⟩
  · rw [List.append_nil]
    rfl
  · rw [reads d]
    rfl

theorem get (d : Document) :
    Follows (Recording.silently MonadState.get) MonadState.get d
      fun found new => found = d ∧ new = [] :=
  silently (fun _ => rfl) fun _ found => ⟨(Except.ok.inj found).symm, rfl⟩

theorem check {ε : Type} (fault : ε → ScanFault) (found : Except ε α) (d : Document) :
    Follows (Recording.silently (Writing.check fault found)) (Writing.check fault found) d
      fun a new => found = .ok a ∧ new = [] := by
  refine silently (Writing.reads_check fault found) fun a passed => ?_
  rw [Writing.on_check] at passed
  cases found with
  | error cause => cases passed
  | ok a' => exact ⟨congrArg _ (Except.ok.inj passed), rfl⟩

theorem bind {f : α → Recording β} {g : α → Writing β} (h : Follows x y d P)
    (next : ∀ a d' new, y.on d = (.ok a, d') → P a new →
      Follows (f a) (g a) d' fun b new' => Q b (new ++ new')) :
    Follows (x >>= f) (y >>= g) d Q := by
  obtain ⟨new, runs, replays, holds⟩ := h
  have first := fun acts => on_bind x f d acts
  simp only [runs] at first
  have plain := Writing.on_bind y g d
  -- A fault in the first part leaves the journal as it is then.
  rcases found : y.on d with ⟨fault | a, d'⟩
  · rw [found] at replays
    simp only [found] at first plain
    refine ⟨new, fun acts => by rw [first, plain], by rw [plain]; exact replays, ?_⟩
    rw [plain]
    intro b impossible
    cases impossible
  · rw [found] at replays
    simp only [found] at first plain
    obtain ⟨new', runs', replays', holds'⟩ := next a d' new found (holds a (by rw [found]))
    refine ⟨new ++ new', fun acts => ?_, ?_, ?_⟩
    · rw [first, plain, runs', List.append_assoc]
    · rw [plain, Document.replay_append, replays]
      exact replays'
    · rw [plain]
      exact holds'

/-- The journal may hold more than what is done without it. -/
theorem aside {f : α → Recording β} {z : Writing β} {a : α} (h : Follows x (Pure.pure a) d P)
    (next : ∀ new, P a new → Follows (f a) z d fun b new' => Q b (new ++ new')) :
    Follows (x >>= f) z d Q := by
  have after := h.bind (g := fun _ => z) (Q := Q) fun a' d' new found holds => by
    obtain ⟨rfl, rfl⟩ : a = a' ∧ d = d' := by
      cases found
      exact ⟨rfl, rfl⟩
    exact next new holds
  rwa [pure_bind] at after

theorem note (position : Nat) (d : Document) :
    Follows (Recording.note (.finish position)) (Pure.pure ()) d
      fun _ new => new = [.finish position] :=
  ⟨[.finish position], fun _ => rfl, rfl, fun _ _ => rfl⟩

theorem perform (act : Act) (d : Document) :
    Follows (Recording.perform act) (Writing.write act.apply) d fun _ new => new = [act] := by
  have plain : (Writing.write act.apply).on d = match act.apply d with
      | .ok d' => (.ok (), d')
      | .error cause => (.error (.index cause), d) := by
    unfold Writing.write
    rw [Writing.on_bind_ok Writing.on_get, Writing.on_bind, Writing.on_check]
    cases act.apply d <;> rfl
  have first (acts : List Act) := on_bind (Recording.silently (Writing.write act.apply))
    (fun _ => Recording.note act) d acts
  have silent (acts : List Act) : (Recording.silently (Writing.write act.apply)).on d acts =
      (((Writing.write act.apply).on d).1, ((Writing.write act.apply).on d).2, acts) := rfl
  simp only [silent] at first
  cases done : act.apply d with
  | error cause =>
    rw [done] at plain
    simp only [plain] at first
    refine ⟨[], fun acts => ?_, by rw [plain]; rfl, ?_⟩
    · rw [List.append_nil, plain]
      exact first acts
    · rw [plain]
      intro _ impossible
      cases impossible
  | ok d' =>
    rw [done] at plain
    simp only [plain] at first
    refine ⟨[act], fun acts => ?_, ?_, fun _ _ => rfl⟩
    · rw [plain]
      exact first acts
    · rw [plain, Document.replay, List.foldlM_cons, done]
      rfl

end Follows

end Recording

/-! ### What the journal holds -/

/-- The positions that a piece of the journal finishes, those that it gives a style, and the lines
whose state it writes. Where folding is on, it writes the fold levels of the same lines. -/
structure Noted (o : ScanOptions) (acts : List Act) (passed coloured : List Nat)
    (lines : List Int) : Prop where
  finished : acts.filterMap Act.finished? = passed
  styled : acts.filterMap Act.styled? = coloured
  stated : acts.filterMap Act.stated? = lines
  levelled : acts.filterMap Act.levelled? = if o.fold then lines else []

namespace Noted

variable {o : ScanOptions} {acts acts' : List Act} {passed passed' coloured coloured' : List Nat}
  {lines lines' : List Int}

theorem append (h : Noted o acts passed coloured lines)
    (h' : Noted o acts' passed' coloured' lines') :
    Noted o (acts ++ acts') (passed ++ passed') (coloured ++ coloured') (lines ++ lines') where
  finished := by rw [List.filterMap_append, h.finished, h'.finished]
  styled := by rw [List.filterMap_append, h.styled, h'.styled]
  stated := by rw [List.filterMap_append, h.stated, h'.stated]
  levelled := by
    rw [List.filterMap_append, h.levelled, h'.levelled]
    split <;> rfl

theorem nil (o : ScanOptions) : Noted o [] [] [] [] :=
  ⟨rfl, rfl, rfl, (ite_self _).symm⟩

theorem finish (o : ScanOptions) (position : Nat) :
    Noted o [.finish position] [position] [] [] :=
  ⟨rfl, rfl, rfl, (ite_self _).symm⟩

theorem setStyle (o : ScanOptions) (position : Nat) (style : Style) :
    Noted o [.setStyle position style] [] [position] [] :=
  ⟨rfl, rfl, rfl, (ite_self _).symm⟩

end Noted

namespace Recording

variable {o : ScanOptions}

theorem follows_writeStyles (o : ScanOptions) (position : Nat) (styles : List Style)
    (d : Document) :
    Follows (writeStyles position styles) (Writing.writeStyles position styles) d
      fun _ new => Noted o new [] (List.range' position styles.length) [] := by
  induction styles generalizing position d with
  | nil => exact .pure (.nil o)
  | cons style styles ih =>
    refine (Follows.perform (.setStyle position style) d).bind ?_
    rintro _ d' _ - rfl
    refine (ih (position + 1) d').mono ?_
    intro _ new noted
    exact (Noted.setStyle o position style).append noted

theorem follows_writeLine (o : ScanOptions) (line : Int) (x : Context) (d : Document) :
    Follows (writeLine o line x) (Writing.writeLine o line x) d
      fun _ new => Noted o new [] [] [line] := by
  -- The state of the line is written last.
  have writesState (d : Document) : Follows
      (silently (Writing.check (fun cause => .refused (.lineData cause)) (LineState.encode x)) >>=
        fun state : Nat => perform (.setLineState line (.int state)))
      (Writing.check (fun cause => .refused (.lineData cause)) (LineState.encode x) >>=
        fun state : Nat => Writing.write fun d => d.setLineState line (.int state))
      d fun _ new => ∃ value, new = [.setLineState line value] := by
    refine (Follows.silently (Writing.reads_check _ _) fun _ _ => rfl).bind ?_
    rintro state d' _ - rfl
    refine (Follows.perform _ d').mono ?_
    rintro _ _ rfl
    exact ⟨_, rfl⟩
  unfold writeLine Writing.writeLine
  cases fold : o.fold with
  | true =>
    refine (Follows.silently (Writing.reads_check _ _) fun _ _ => rfl).bind ?_
    rintro level d' _ - rfl
    refine (Follows.perform (.setFoldLevel line (some level)) d').bind ?_
    rintro _ d' _ - rfl
    refine (writesState d').mono ?_
    rintro _ _ ⟨value, rfl⟩
    exact ⟨rfl, rfl, rfl, by rw [if_pos fold]; rfl⟩
  | false =>
    refine (writesState d).mono ?_
    rintro _ _ ⟨value, rfl⟩
    exact ⟨rfl, rfl, rfl, by rw [fold]; rfl⟩

end Recording

/-! ### Walks -/

/-- The numbers of some lines that stand below each other. -/
def lineNumbers (first : Int) (count : Nat) : List Int :=
  (List.range count).map fun i : Nat => first + i

theorem lineNumbers_add (first : Int) (count more : Nat) :
    lineNumbers first (count + more) =
      lineNumbers first count ++ lineNumbers (first + count) more := by
  simp only [lineNumbers, List.range_add, List.map_append, List.map_map]
  congr 1
  refine List.map_congr_left fun i _ => ?_
  simp only [Function.comp_apply]
  omega

theorem range'_append_of_le {first middle last : Nat} (le : first ≤ middle) (le' : middle ≤ last) :
    List.range' first (middle - first) ++ List.range' middle (last - middle) =
      List.range' first (last - first) := by
  obtain ⟨count, rfl⟩ := Nat.exists_eq_add_of_le le
  obtain ⟨more, rfl⟩ := Nat.exists_eq_add_of_le le'
  rw [Nat.add_assoc, Nat.add_sub_cancel_left, ← Nat.add_assoc, Nat.add_sub_cancel_left,
    List.range'_append_1, Nat.add_assoc, Nat.add_sub_cancel_left]

theorem Machine.length_latest (m : Machine) :
    m.latest.length = m.runLength + m.painted.length := by
  simp [latest]

namespace Walk

open Recording

variable {o : ScanOptions} {c : Char} {rest : List Char} {w w' w'' : Walk} {new new' : List Act}
  {n n' lines lines' : Nat}

/-- A walk has passed some characters and ends of lines: it has finished the characters in order,
given styles up to the run in progress, and written the data of the lines. -/
structure Passed (o : ScanOptions) (n lines : Nat) (w w' : Walk) (new : List Act) : Prop where
  position : w'.position = w.position + n
  runStart : w.runStart ≤ w'.runStart
  line : w'.line = w.line + lines
  noted : Noted o new (List.range' w.position n)
    (List.range' w.runStart (w'.runStart - w.runStart)) (lineNumbers w.line lines)

theorem Passed.still (o : ScanOptions) (position : w'.position = w.position)
    (runStart : w'.runStart = w.runStart) (line : w'.line = w.line) : Passed o 0 0 w w' [] where
  position := position
  runStart := Nat.le_of_eq runStart.symm
  line := line.trans (Int.add_zero _).symm
  noted := by
    rw [runStart, Nat.sub_self]
    exact .nil o

theorem Passed.trans (h : Passed o n lines w w' new) (h' : Passed o n' lines' w' w'' new') :
    Passed o (n + n') (lines + lines') w w'' (new ++ new') where
  position := by rw [h'.position, h.position, Nat.add_assoc]
  runStart := Nat.le_trans h.runStart h'.runStart
  line := by rw [h'.line, h.line, Int.natCast_add, Int.add_assoc]
  noted := by
    have noted := h.noted.append h'.noted
    rw [h.position, h.line] at noted
    rwa [List.range'_append_1, range'_append_of_le h.runStart h'.runStart, ← lineNumbers_add]
      at noted

theorem follows_proceed (o : ScanOptions) (m : Machine) (w : Walk) (d : Document) :
    Follows (w.proceedRecorded m) (w.proceed m) d fun w' new =>
      let ended := m.painted.length - w.machine.painted.length
      w' = { w with machine := m, runStart := w.runStart + ended } ∧
        Noted o new [] (List.range' w.runStart ended) [] := by
  have ended : (m.painted.take (m.painted.length - w.machine.painted.length)).length =
      m.painted.length - w.machine.painted.length := List.length_take_of_le (Nat.sub_le _ _)
  refine (follows_writeStyles o w.runStart _ d).bind ?_
  intro _ d' new _ noted
  refine .pure ⟨?_, ?_⟩
  · rw [ended]
  · rw [List.append_nil]
    rwa [List.length_reverse, ended] at noted

theorem follows_look (o : ScanOptions) (c : Char) (rest : List Char) (w : Walk) (d : Document) :
    Follows (w.lookRecorded o c rest) (w.look o c rest) d (Passed o 0 0 w) := by
  unfold lookRecorded look
  by_cases held : w.machine.held = 0
  · rw [if_pos held, if_pos held]
    refine (Follows.silently w.reads_readFirst fun _ _ => rfl).bind ?_
    rintro _ d' _ - rfl
    refine (follows_proceed o _ w d').mono ?_
    rintro _ new ⟨rfl, noted⟩
    -- Looking takes no character, so what the run loses was given its style.
    have same := (@Machine.Finished.look o c rest w.machine).styles
    have grows := (@Machine.painted_look o c rest w.machine held).length_le
    rw [Machine.length_latest, Machine.length_latest] at same
    refine ⟨?_, Nat.le_add_right _ _, (Int.add_zero _).symm, ?_⟩
    · simp only [position]
      omega
    · rw [Nat.add_sub_cancel_left]
      exact noted
  · rw [if_neg held, if_neg held]
    exact .pure (.still o rfl rfl rfl)

theorem follows_endLine (o : ScanOptions) (c : Char) (rest : List Char) (w : Walk)
    (d : Document) :
    Follows (w.endLineRecorded o c rest) (w.endLine o c rest) d fun w' new =>
      let lines : Nat := if Machine.lastOfLine c rest then 1 else 0
      w' = { w with line := w.line + lines } ∧ Noted o new [] [] (lineNumbers w.line lines) := by
  unfold endLineRecorded endLine
  by_cases ends : Machine.lastOfLine c rest = true
  · simp only [if_pos ends]
    refine (follows_writeLine o w.line _ d).bind ?_
    intro _ d' new _ noted
    rw [show [w.line] = lineNumbers w.line 1 by simp [lineNumbers]] at noted
    exact .pure ⟨rfl, by rwa [List.append_nil]⟩
  · simp only [if_neg ends]
    exact .pure ⟨by simp, .nil o⟩

theorem follows_step (o : ScanOptions) (c : Char) (rest : List Char) (w : Walk) (d : Document) :
    Follows (w.stepRecorded o c rest) (w.step o c rest) d
      (Passed o 1 (if Machine.lastOfLine c rest then 1 else 0) w) := by
  -- The character is finished between the look at it and the end of its line.
  refine (follows_look o c rest w d).bind ?_
  intro w d new _ looked
  refine Follows.aside (Follows.note w.position d) ?_
  rintro _ rfl
  refine (follows_endLine o c rest w d).bind ?_
  rintro _ d new' - ⟨rfl, ended⟩
  refine (follows_proceed o _ _ d).mono ?_
  rintro _ new'' ⟨rfl, taken⟩
  have longer := congrArg List.length (@Machine.latest_take o c rest w.machine)
  have grows := (@Machine.painted_take o c rest w.machine).length_le
  rw [List.length_cons, Machine.length_latest, Machine.length_latest] at longer
  have passed : Passed o 1 (if Machine.lastOfLine c rest then 1 else 0) w
      { machine := w.machine.take o c rest
        runStart := w.runStart +
          ((w.machine.take o c rest).painted.length - w.machine.painted.length)
        line := w.line + (if Machine.lastOfLine c rest then 1 else 0 : Nat) }
      ([.finish w.position] ++ (new' ++ new'')) := by
    refine ⟨?_, Nat.le_add_right _ _, rfl, ?_⟩
    · simp only [position]
      omega
    · have noted := (Noted.finish o w.position).append (ended.append taken)
      rw [Nat.add_sub_cancel_left]
      simpa using noted
  simpa using looked.trans passed

theorem follows_run (o : ScanOptions) (n : Nat) (text : List Char) (le : n ≤ text.length)
    (w : Walk) (d : Document) :
    Follows (w.runRecorded o n text) (w.run o n text) d
      (Passed o n (finishedLines n text) w) := by
  induction n generalizing text w d with
  | zero => exact .pure (.still o rfl rfl rfl)
  | succ n ih =>
    cases text with
    | nil => exact absurd le (Nat.not_succ_le_zero n)
    | cons c rest =>
      refine (follows_step o c rest w d).bind ?_
      intro w' d' new _ passed
      refine (ih rest (Nat.le_of_succ_le_succ le) w' d').mono ?_
      intro w'' new' further
      rw [finishedLines_cons, Nat.add_comm n, Nat.add_comm (finishedLines n rest)]
      exact passed.trans further

/-- At the end of the range the characters of the run in progress are given their style. -/
theorem follows_finish (o : ScanOptions) (w : Walk) (d : Document) :
    Follows w.finishRecorded w.finish d fun _ new =>
      Noted o new [] (List.range' w.runStart w.machine.runLength) [] := by
  refine (follows_proceed o w.machine.finish w d).bind ?_
  rintro _ d' new - ⟨rfl, noted⟩
  refine (follows_writeStyles o _ _ d').bind ?_
  intro _ d'' new' _ noted'
  have same := congrArg List.length (@Machine.latest_finish w.machine)
  have grows : w.machine.painted.length ≤ w.machine.finish.painted.length :=
    (Machine.painted_release _ { w.machine with held := 0 }).length_le
  have all : w.machine.finish.painted.length - w.machine.painted.length +
      w.machine.finish.runLength = w.machine.runLength := by
    rw [Machine.length_latest, Machine.length_latest] at same
    omega
  have noted := noted.append noted'
  rw [List.length_replicate, List.range'_append_1, all] at noted
  exact .pure (by rwa [List.append_nil])

end Walk

open Recording in
/-- Keeping a journal changes nothing about a scan. Where the scan comes to its end, the journal has
finished the characters of the range and given them their styles, one after the other, and has
written the data of the lines that end there. -/
theorem follows_scanRecorded (p : Place) (s : ScanSetup) (start length : Int) (initStyle : Style)
    (d : Document) :
    Follows (scanRecorded p s start length initStyle) (scanInPlace p s start length initStyle) d
      fun _ new => ∀ o, s.options p = .ok o →
        Noted o new (List.range' start.toNat length.toNat) (List.range' start.toNat length.toNat)
          (lineNumbers (d.lineAt start)
            (finishedLines length.toNat (d.text.drop start.toNat))) := by
  refine (Follows.get d).bind ?_
  rintro _ d' _ - ⟨rfl, rfl⟩
  refine (Follows.check _ _ d').bind ?_
  rintro _ d' _ - ⟨range, rfl⟩
  obtain ⟨first, forward, inside⟩ := Document.checkRange_eq_ok range
  refine (Follows.check _ _ d').bind ?_
  rintro o d' _ - ⟨options, rfl⟩
  refine (Follows.silently (Writing.reads_readContext _ _) fun _ _ => rfl).bind ?_
  rintro x d' _ - rfl
  refine (Walk.follows_run o length.toNat _ (by rw [List.length_drop]; omega) _ d').bind ?_
  intro w d' new _ passed
  refine (Walk.follows_finish o w d').bind ?_
  intro w' d' new' _ finished
  refine .pure ?_
  intro o' options'
  obtain rfl : o = o' := Except.ok.inj (options.symm.trans options')
  have position : w.runStart + w.machine.runLength = start.toNat + length.toNat := passed.position
  have behind : w.machine.runLength = start.toNat + length.toNat - w.runStart := by omega
  have noted := passed.noted.append finished
  rw [behind, range'_append_of_le passed.runStart (by omega), List.append_nil, List.append_nil,
    Nat.add_sub_cancel_left] at noted
  rw [List.append_nil]
  exact noted

/-! ### What a scan writes -/

namespace Document

variable {d : Document} {o : ScanOptions} {start n : Nat}

/-- The line has characters, and the last of them is one of the `n` from `start` on. -/
structure EndsIn (d : Document) (start n line : Nat) : Prop where
  some : d.startOf line < d.startOf (line + 1 : Nat)
  behind : start < d.startOf (line + 1 : Nat)
  within : d.startOf (line + 1 : Nat) ≤ start + n

/-- The lines that end in a range stand below each other. -/
theorem endsIn_iff (fits : start + n ≤ d.text.length) {line : Nat} :
    d.EndsIn start n line ↔ lineEnds start d.text ≤ line ∧
      line < lineEnds start d.text + finishedLines n (d.text.drop start) := by
  rcases Nat.lt_or_eq_of_le (Nat.le_of_add_right_le fits) with inside | rfl
  -- Of the lines that have ended where the range ends, those have not ended where it starts.
  · have started : line < finishedLines start d.text ↔
        d.startOf line < d.startOf (line + 1 : Nat) ∧ d.startOf (line + 1 : Nat) ≤ start :=
      lt_finishedLines_iff (Nat.le_of_lt inside)
    have ended : line < finishedLines (start + n) d.text ↔
        d.startOf line < d.startOf (line + 1 : Nat) ∧ d.startOf (line + 1 : Nat) ≤ start + n :=
      lt_finishedLines_iff fits
    rw [finishedLines_add, finishedLines_eq_lineEnds inside] at ended
    rw [finishedLines_eq_lineEnds inside] at started
    constructor
    · intro h
      have some := h.some
      have behind := h.behind
      have within := h.within
      omega
    · intro h
      exact ⟨by omega, by omega, by omega⟩
  -- A range behind the last character is empty.
  · obtain rfl : n = 0 := by omega
    refine iff_of_false (fun h => ?_) fun h => ?_
    · exact absurd h.behind (Nat.not_lt_of_le h.within)
    · have none : finishedLines 0 (d.text.drop d.text.length) = 0 := rfl
      omega

/-- A journal of a scan, and the document that the scan leaves: all characters of the range are
finished and given a style, each of them once and in order, and the data of a line is written once
for each line that ends in the range. Nothing else changes. -/
structure Journaled (o : ScanOptions) (d : Document) (start n : Nat) (d' : Document)
    (acts : List Act) : Prop where
  replay : d.replay acts = .ok d'
  finished : acts.filterMap Act.finished? = List.range' start n
  styled : acts.filterMap Act.styled? = List.range' start n
  stated : ∀ line : Int, line ∈ acts.filterMap Act.stated? ↔
    ∃ ended : Nat, line = ended ∧ d.EndsIn start n ended
  once : (acts.filterMap Act.stated?).Pairwise (· < ·)
  levelled : acts.filterMap Act.levelled? = if o.fold then acts.filterMap Act.stated? else []
  text : d'.text = d.text
  front : d'.styles.take start = d.styles.take start
  behind : d'.styles.drop (start + n) = d.styles.drop (start + n)
  others : ∀ line : Nat, ¬d.EndsIn start n line → SameLine d' line d line

/-- Whatever range of a document with valid line states is scanned, the scan comes to its end, and
writes exactly what belongs to the range. -/
theorem Sized.scanRecorded_journaled (sized : d.Sized)
    (stored : ∀ state ∈ d.lineStates, ∃ k : Nat, state = .int k) {p : Place} {s : ScanSetup}
    (options : s.options p = .ok o) (fits : start + n ≤ d.text.length) (initStyle : Style) :
    ∃ r d' acts, (scanRecorded p s start n initStyle).on d [] = (.ok r, d', acts) ∧
      (scanInPlace p s start n initStyle).on d = (.ok r, d') ∧
      d.scan p s start n initStyle = .ok (d', r) ∧ Journaled o d start n d' acts := by
  have range : start + n ≤ d.styles.length := sized.styles ▸ fits
  -- With valid states on all lines the scan can restore the one that it starts from.
  obtain ⟨x, restored⟩ : ∃ x, d.contextAt start initStyle = .ok x := by
    cases found : d.contextAt start initStyle with
    | ok x => exact ⟨x, rfl⟩
    | error cause =>
      obtain ⟨line, value, -, held, wrong, -⟩ := (contextAt_error_iff sized).mp found
      obtain ⟨k, number⟩ := stored value (List.mem_of_getElem? (itemAt_eq_ok_iff.mp held))
      exact absurd number (wrong k)
  have scanned := scan_eq options d fits restored
  have written := on_scanInPlace sized p s start n initStyle
  rw [scanned] at written
  obtain ⟨acts, runs, replays, noted⟩ := follows_scanRecorded p s start n initStyle d
  rw [written] at runs replays noted
  have noted := noted _ rfl o options
  simp only [Int.toNat_natCast, lineAt_eq] at noted
  have latest : (d.scanMachine start n initStyle o x).latest.reverse.length = n := by
    rw [List.length_reverse, d.length_latest_scanMachine fits]
  refine ⟨_, _, acts, runs [], written, scanned, ?_⟩
  exact {
    replay := replays
    finished := noted.finished
    styled := noted.styled
    stated := by
      intro line
      rw [noted.stated]
      simp only [lineNumbers, List.mem_map, List.mem_range, endsIn_iff fits]
      constructor
      · rintro ⟨i, inside, rfl⟩
        exact ⟨lineEnds start d.text + i, rfl, Nat.le_add_right _ _, Nat.add_lt_add_left inside _⟩
      · rintro ⟨ended, rfl, behind, within⟩
        exact ⟨ended - lineEnds start d.text, by omega, by omega⟩
    once := by
      rw [noted.stated, lineNumbers, List.pairwise_map]
      refine List.pairwise_lt_range.imp fun less => ?_
      omega
    levelled := by rw [noted.levelled, noted.stated]
    text := rfl
    front := by
      rw [styles_scanFrom, take_start_overlay (Nat.le_of_add_right_le range)]
    behind := by
      have dropped := @drop_overlay _ start (d.scanMachine start n initStyle o x).latest.reverse
        d.styles (Nat.le_of_add_right_le range)
      rwa [latest, ← styles_scanFrom] at dropped
    others := by
      intro line other
      rw [endsIn_iff fits] at other
      exact sized.sameLine_scanFrom initStyle o x (by omega) }

/-- A range that starts inside a line break and ends inside a comment. -/
theorem scanRecorded_journaled_comment :
    let d : Document := ⟨['a', '\r', '\n', '/', '*', 'b'],
      [.tag, .default, .default, .url, .url, .url], [some 7, none], [.int 3, .int 0]⟩
    let o : ScanOptions := ⟨.standard, true, .builtin⟩
    ∃ r d' acts, (scanRecorded default {} 2 3 .default).on d [] = (.ok r, d', acts) ∧
      Journaled o d 2 3 d' acts ∧ 0 ∈ acts.filterMap Act.stated? := by
  intro d o
  have sized : d.Sized := ⟨rfl, rfl, rfl⟩
  have stored : ∀ state ∈ d.lineStates, ∃ k : Nat, state = .int k := by
    intro state member
    simp only [d, List.mem_cons, List.not_mem_nil, or_false] at member
    rcases member with rfl | rfl
    · exact ⟨3, rfl⟩
    · exact ⟨0, rfl⟩
  obtain ⟨r, d', acts, runs, -, -, journaled⟩ :=
    sized.scanRecorded_journaled (p := default) (s := {}) (o := o) stored rfl
      (by decide : 2 + 3 ≤ d.text.length) .default
  have ends : d.EndsIn 2 3 0 := ⟨by decide, by decide, by decide⟩
  exact ⟨r, d', acts, runs, journaled, (journaled.stated 0).mpr ⟨0, rfl, ends⟩⟩

end Document

end CssHighlight
