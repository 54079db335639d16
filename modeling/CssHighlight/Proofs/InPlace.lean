import CssHighlight.Proofs.Stored
import CssHighlight.Scan.InPlace

/-!
# Scans in place

A scan that writes into the document as it reads finds every place that it reads from or writes to
inside the document, and line data that can be stored. It leaves the document that the scan with
all its writes at the end leaves.

The walk carries the writes along with the machine: behind every character the document holds the
styles of the runs that have ended and the data of the lines that have ended. One step of the
machine keeps that, and so does a run.
-/
namespace CssHighlight

namespace Writing

variable {α β ε : Type} {x : Writing α} {d d' : Document} {a : α} {fault : ScanFault}

theorem on_bind (x : Writing α) (f : α → Writing β) (d : Document) :
    Writing.on (x >>= f) d = match x.on d with
      | (.ok a, d') => (f a).on d'
      | (.error fault, d') => (.error fault, d') := by
  unfold Writing.on ExceptT.run StateT.run
  simp only [bind, ExceptT.bind, ExceptT.mk, StateT.bind]
  cases x d with
  | mk result d' => cases result <;> rfl

theorem on_bind_ok (done : x.on d = (.ok a, d')) (f : α → Writing β) :
    Writing.on (x >>= f) d = Writing.on (f a) d' := by
  rw [on_bind, done]

theorem on_bind_error (halted : x.on d = (.error fault, d')) (f : α → Writing β) :
    Writing.on (x >>= f) d = (.error fault, d') := by
  rw [on_bind, halted]

theorem on_get : Writing.on get d = (.ok d, d) :=
  rfl

theorem on_set : Writing.on (set d') d = (.ok ⟨⟩, d') :=
  rfl

theorem on_check (f : ε → ScanFault) (y : Except ε α) : (check f y).on d = match y with
    | .ok a => (.ok a, d)
    | .error cause => (.error (f cause), d) := by
  cases y <;> rfl

theorem on_check_ok (f : ε → ScanFault) {y : Except ε α} (found : y = .ok a) :
    (check f y).on d = (.ok a, d) := by
  rw [on_check, found]

theorem on_check_error (f : ε → ScanFault) {y : Except ε α} {cause : ε}
    (failed : y = .error cause) : (check f y).on d = (.error (f cause), d) := by
  rw [on_check, failed]

theorem on_readChar {position : Nat} (inside : position < d.text.length) :
    (readChar position).on d = (.ok d.text[position], d) := by
  unfold readChar
  rw [on_bind_ok on_get]
  simp only [List.getElem?_eq_getElem inside]
  rfl

theorem on_write {f : Document → Except IndexError Document} (done : f d = .ok d') :
    (write f).on d = (.ok (), d') := by
  unfold write
  rw [on_bind_ok on_get, on_bind_ok (on_check_ok _ done), on_set]

open Document

theorem on_setStyle {position : Nat} (inside : position < d.styles.length) (style : Style) :
    (write fun d => d.setStyle position style).on d =
      (.ok (), { d with styles := d.styles.set position style }) := by
  refine on_write ?_
  rw [Document.setStyle, putItem_natCast d.styles inside]
  rfl

theorem on_writeStyles {position : Nat} {styles : List Style}
    (inside : position + styles.length ≤ d.styles.length) :
    (writeStyles position styles).on d =
      (.ok (), { d with styles := overlay position styles d.styles }) := by
  induction styles generalizing d position with
  | nil =>
    rw [overlay_nil]
    rfl
  | cons style styles ih =>
    simp only [List.length_cons] at inside
    have first : position < d.styles.length := by omega
    have others : position + 1 + styles.length ≤ (d.styles.set position style).length := by
      rw [List.length_set]
      omega
    rw [writeStyles, on_bind_ok (on_setStyle first style), ih others]
    rw [← overlay_singleton style first]
    exact congrArg (fun written => (Except.ok (), { d with styles := written }))
      (overlay_append [style] styles (Nat.le_of_lt first))

theorem on_setFoldLevel {line : Nat} (inside : line < d.foldLevels.length) (level : Option Int) :
    (write fun d => d.setFoldLevel line level).on d =
      (.ok (), { d with foldLevels := d.foldLevels.set line level }) := by
  refine on_write ?_
  rw [Document.setFoldLevel, putItem_natCast d.foldLevels inside]
  rfl

theorem on_setLineState {line : Nat} (inside : line < d.lineStates.length) (state : Value) :
    (write fun d => d.setLineState line state).on d =
      (.ok (), { d with lineStates := d.lineStates.set line state }) := by
  refine on_write ?_
  rw [Document.setLineState, putItem_natCast d.lineStates inside]
  rfl

/-- What a line's end writes: its fold level, when they are computed, and its state. -/
theorem on_writeLine {o : ScanOptions} {line : Nat} {x : Context} (bounded : x.Bounded)
    (counted : o.fold = true → 0 ≤ x.foldHere) (level : line < d.foldLevels.length)
    (state : line < d.lineStates.length) :
    (writeLine o line x).on d = (.ok (),
      { d with
        foldLevels :=
          if o.fold then d.foldLevels.set line ((x.lineData o).fold.map Int.ofNat)
          else d.foldLevels
        lineStates := d.lineStates.set line (.int (x.lineData o).state) }) := by
  unfold writeLine
  cases fold : o.fold with
  | true =>
    have packed := FoldLevel.encode_of_nonneg (counted fold) (Context.clampFold_bounds x.foldNext).1
    simp only [if_true]
    rw [on_bind_ok (on_check_ok _ packed), on_bind_ok (on_setFoldLevel level _),
      on_bind_ok (on_check_ok _ bounded.encode)]
    refine (on_setLineState ?_ _).trans ?_
    · exact state
    · simp [Context.lineData, fold]
  | false =>
    simp only [Bool.false_eq_true, if_false]
    rw [on_bind_ok (on_check_ok _ bounded.encode), on_setLineState state]
    rfl

end Writing

namespace Document

/-- The document with the styles of a piece of text and the data of some lines in their places. -/
def written (d : Document) (o : ScanOptions) (start : Nat) (styles : List Style) (first : Nat)
    (lines : List LineData) : Document :=
  { d with
    styles := overlay start styles d.styles
    foldLevels :=
      if o.fold then overlay first (lines.map fun line => line.fold.map Int.ofNat) d.foldLevels
      else d.foldLevels
    lineStates := overlay first (lines.map fun line => Value.int line.state) d.lineStates }

variable {d : Document} {o : ScanOptions} {start first : Nat} {styles : List Style}
  {lines : List LineData}

theorem written_nil (d : Document) (o : ScanOptions) (start first : Nat) :
    d.written o start [] first [] = d := by
  simp [written, overlay_nil]

theorem on_writeStyles_written (more : List Style)
    (inside : start + (styles ++ more).length ≤ d.styles.length) :
    (Writing.writeStyles (start + styles.length) more).on (d.written o start styles first lines) =
      (.ok (), d.written o start (styles ++ more) first lines) := by
  rw [List.length_append] at inside
  have length : (overlay start styles d.styles).length = d.styles.length :=
    length_overlay (by omega)
  refine (Writing.on_writeStyles ?_).trans ?_
  · refine Nat.le_trans ?_ (Nat.le_of_eq length.symm)
    omega
  · simp only [written]
    rw [overlay_append styles more (by omega)]

theorem on_writeLine_written {x : Context} (bounded : x.Bounded)
    (counted : o.fold = true → 0 ≤ x.foldHere)
    (level : first + lines.length < d.foldLevels.length)
    (state : first + lines.length < d.lineStates.length) :
    (Writing.writeLine o (first + lines.length : Nat) x).on
        (d.written o start styles first lines) =
      (.ok (), d.written o start styles first (lines ++ [x.lineData o])) := by
  -- A line's data goes behind that of the lines before it.
  have behind {α : Type} (f : LineData → α) {old : List α}
      (inside : first + lines.length < old.length) :
      (overlay first (lines.map f) old).set (first + lines.length) (f (x.lineData o)) =
        overlay first ((lines ++ [x.lineData o]).map f) old := by
    have length : (overlay first (lines.map f) old).length = old.length :=
      length_overlay (by rw [List.length_map]; omega)
    rw [← overlay_singleton _ (length ▸ inside), List.map_append,
      ← overlay_append (lines.map f) _ (by omega), List.length_map]
    rfl
  have length {α : Type} (f : LineData → α) {old : List α}
      (inside : first + lines.length < old.length) :
      first + lines.length < (overlay first (lines.map f) old).length := by
    rwa [length_overlay (by rw [List.length_map]; omega)]
  refine (Writing.on_writeLine bounded counted ?_ ?_).trans ?_
  · simp only [written]
    split
    · exact length _ level
    · exact level
  · exact length _ state
  · simp only [written, behind _ state]
    cases o.fold with
    | true => simp only [if_true, behind _ level]
    | false => rfl

end Document

namespace Machine

variable {o : ScanOptions} {c : Char} {rest : List Char} {m m' : Machine}

/-! ### Styles that are written are never taken back -/

theorem painted_punctuate (m : Machine) : (m.punctuate o c).painted = m.painted := by
  unfold punctuate
  split <;> first | rfl | (split <;> rfl)

theorem painted_release (text : List Char) (m : Machine) :
    m.painted <:+ (m.release text).painted := by
  rcases release_cases text m with ⟨_, -, -, released⟩ | ⟨-, released⟩
  · exact ⟨_, congrArg Machine.painted released.symm⟩
  · exact ⟨[], congrArg Machine.painted released.symm⟩

theorem TokenRule.painted (rule : TokenRule o c rest m m') : m.painted <:+ m'.painted := by
  cases rule with
  | blank => exact List.suffix_refl _
  | blockComment | token => exact List.suffix_append _ _
  | punctuation =>
    rw [painted_punctuate]
    exact List.suffix_append _ _

theorem RunRule.painted (rule : RunRule o c rest m m') (held : m.held = 0) :
    m.painted <:+ m'.painted := by
  cases rule with
  | blank => exact (startToken_rule held).painted
  | escape | interpolation | address => exact List.suffix_append _ _
  | @token style context ends =>
    have started : m.painted <:+ (m.endAs style context (c :: rest)).painted :=
      List.suffix_append _ _
    exact started.trans (@startToken_rule o c rest (m.endAs style context (c :: rest)) held).painted
  | _ => exact List.suffix_refl _

theorem painted_look (held : m.held = 0) : m.painted <:+ (m.look o c rest).painted := by
  have rule := @look_rule o c rest m
  generalize m.look o c rest = m' at rule ⊢
  cases rule with
  | digit => exact List.suffix_refl _
  | resumes left escape rule =>
    have started : m.painted <:+ ((m.update (Context.withDigits left)).start
        m.context.escape.outer (c :: rest)).painted := List.suffix_append _ _
    exact started.trans (rule.painted held)
  | runs _ rule => exact rule.painted held

theorem painted_take (m : Machine) : m.painted <:+ (m.take o c rest).painted := by
  cases take_taken o c rest m with
  | released _ _ _ _ _ _ painted => exact ⟨_, painted.symm⟩
  | goesOn _ _ _ _ _ painted => exact ⟨[], painted.symm⟩

/-- Of the styles that are known, those of the run in progress are not written yet. -/
theorem length_painted_le (m : Machine) : m.painted.length ≤ m.latest.length := by
  simp only [latest, List.length_append]
  omega

end Machine

namespace Context

/-- The nesting and the fold level of a context that can be stored for a line. -/
structure Storable (o : ScanOptions) (x : Context) : Prop extends Bounded x where
  foldHere : o.fold = true → 0 ≤ x.foldHere

theorem storable_invariant (o : ScanOptions) : Machine.Invariant o (Storable o) where
  nests := fun h nests =>
    { h.toBounded.depths nests.depths with
      foldHere := fun fold => by rw [nests.foldHere]; exact h.foldHere fold }
  endLine := fun {x} h =>
    { h.toBounded.depths (y := x.endLine o) (.same rfl rfl rfl) with
      foldHere := fun fold => by
        simp only [endLine, fold, if_true]
        exact (clampFold_bounds _).1 }

end Context

/-! ### A walk follows the machine -/

namespace Walk

open Writing

/-- The walk from `start` in line `first` that has come as far as a machine. -/
def behind (start first : Nat) (m : Machine) : Walk :=
  ⟨m, start + m.painted.length, (first + m.lines.length : Nat)⟩

variable {d : Document} {o : ScanOptions} {start first : Nat} {c : Char} {rest : List Char}
  {m m' : Machine}

theorem on_proceed {line : Int} {lines : List LineData} (grows : m.painted <:+ m'.painted)
    (inside : start + m'.painted.length ≤ d.styles.length) :
    (proceed m' ⟨m, start + m.painted.length, line⟩).on
        (d.written o start m.painted.reverse first lines) =
      (.ok ⟨m', start + m'.painted.length, line⟩,
        d.written o start m'.painted.reverse first lines) := by
  obtain ⟨new, grown⟩ := grows
  have ended : m'.painted.take (m'.painted.length - m.painted.length) = new := by
    rw [← grown, List.length_append, Nat.add_sub_cancel, List.take_left]
  have all : m'.painted.reverse = m.painted.reverse ++ new.reverse := by
    rw [← grown, List.reverse_append]
  have fits : start + (m.painted.reverse ++ new.reverse).length ≤ d.styles.length := by
    rwa [← all, List.length_reverse]
  have writes := @Document.on_writeStyles_written d o start first _ lines new.reverse fits
  rw [List.length_reverse, ← all] at writes
  unfold proceed
  simp only [ended]
  rw [on_bind_ok writes]
  have length : start + m.painted.length + new.length = start + m'.painted.length := by
    rw [← grown, List.length_append]
    omega
  rw [length]
  rfl

/-- The document that a walk from `start` in line `first` has written when it has come as far as a
machine. -/
def trail (d : Document) (o : ScanOptions) (start first : Nat) (m : Machine) : Document :=
  d.written o start m.painted.reverse first m.lines.reverse

/-- Room for `n` more characters of a text, in a document that a machine has scanned from `start`
in line `first`, whose context can be stored. -/
structure Room (d : Document) (o : ScanOptions) (start first n : Nat) (text : List Char)
    (m : Machine) : Prop extends Context.Storable o m.context where
  styles : start + m.latest.length + n ≤ d.text.length
  lines : first + m.lines.length + finishedLines n text ≤ d.lineCount

theorem on_proceed_look (sized : d.Sized) (before : start + m.latest.length < d.text.length)
    (held : m.held = 0) :
    (proceed (m.look o c rest) (behind start first m)).on (trail d o start first m) =
      (.ok (behind start first (m.look o c rest)), trail d o start first (m.look o c rest)) := by
  have same := @Machine.Finished.look o c rest m
  have inside : start + (m.look o c rest).painted.length ≤ d.styles.length := by
    have le := (m.look o c rest).length_painted_le
    rw [same.styles] at le
    rw [sized.styles]
    omega
  rw [behind, behind, trail, trail, same.lines]
  exact on_proceed (Machine.painted_look held) inside

theorem on_readFirst (before : start + m.latest.length < d.text.length) :
    (behind start first m).readFirst.on (trail d o start first m) =
      (.ok (), trail d o start first m) := by
  have runStart : start + m.painted.length < (trail d o start first m).text.length :=
    Nat.lt_of_le_of_lt (Nat.add_le_add_left m.length_painted_le start) before
  unfold readFirst
  split
  · exact on_bind_ok (on_readChar runStart) _
  · rfl

/-- What a walk does before it takes a character. -/
theorem on_look (sized : d.Sized) (before : start + m.latest.length < d.text.length) :
    ∃ m', m.step o c rest = m'.take o c rest ∧ m'.lines = m.lines ∧
      m'.latest.length = m.latest.length ∧
      (Context.Storable o m.context → Context.Storable o m'.context) ∧
      ((behind start first m).look o c rest).on (trail d o start first m) =
        (.ok (behind start first m'), trail d o start first m') := by
  have machine : (behind start first m).machine = m := rfl
  unfold Walk.look
  by_cases held : m.held = 0
  · have same := @Machine.Finished.look o c rest m
    refine ⟨m.look o c rest, by rw [Machine.step, if_pos held], same.lines, same.styles,
      fun storable => (Context.storable_invariant o).nests storable (Machine.look_nests held), ?_⟩
    rw [machine, if_pos held, on_bind_ok (on_readFirst before)]
    exact on_proceed_look sized before held
  · refine ⟨{ m with held := m.held - 1 }, by rw [Machine.step, if_neg held], rfl, rfl, id, ?_⟩
    rw [machine, if_neg held]
    rfl

theorem on_endLine (sized : d.Sized) (storable : Context.Storable o m.context)
    (room : first + m.lines.length + (if Machine.lastOfLine c rest then 1 else 0) ≤ d.lineCount) :
    ((behind start first m).endLine o c rest).on (trail d o start first m) =
      (.ok ⟨m, start + m.painted.length, (first + (m.take o c rest).lines.length : Nat)⟩,
        d.written o start m.painted.reverse first (m.take o c rest).lines.reverse) := by
  unfold Walk.endLine
  rw [Machine.lines_take]
  by_cases ends : Machine.lastOfLine c rest = true
  · have line : first + m.lines.reverse.length < d.lineCount := by
      rw [if_pos ends] at room
      rw [List.length_reverse]
      omega
    have remembered := (Context.storable_invariant o).nests storable
      (Context.remember_calm m.style c m.context).nests
    have writes := @Document.on_writeLine_written d o start first m.painted.reverse
      m.lines.reverse _
      remembered.toBounded remembered.foldHere (sized.foldLevels ▸ line) (sized.lineStates ▸ line)
    rw [List.length_reverse] at writes
    simp only [ends, if_true, List.reverse_cons, List.length_cons]
    exact (on_bind_ok writes _).trans rfl
  · simp only [ends]
    rfl

/-- A walk takes the step that the machine takes. -/
theorem Room.step {n : Nat} (sized : d.Sized)
    (room : Room d o start first (n + 1) (c :: rest) m) :
    Room d o start first n rest (m.step o c rest) ∧
      ((behind start first m).step o c rest).on (trail d o start first m) =
        (.ok (behind start first (m.step o c rest)), trail d o start first (m.step o c rest)) := by
  have styles := room.styles
  have lines := room.lines
  rw [finishedLines_cons] at lines
  obtain ⟨m', step, sameLines, sameStyles, storable, looks⟩ :=
    @on_look d o start first c rest m sized (by omega)
  have kept := storable room.toStorable
  have ends := @on_endLine d o start first c rest m' sized kept (by rw [sameLines]; omega)
  have inside : start + (m'.take o c rest).painted.length ≤ d.styles.length := by
    have le := (m'.take o c rest).length_painted_le
    rw [Machine.latest_take, List.length_cons] at le
    rw [sized.styles]
    omega
  rw [step]
  constructor
  · refine { ((Context.storable_invariant o).take kept).1 with styles := ?_, lines := ?_ }
    · rw [Machine.latest_take, List.length_cons]
      omega
    · rw [Machine.lines_take, sameLines]
      split at lines
      next ends =>
        rw [if_pos ends, List.length_cons]
        omega
      next goesOn =>
        rw [if_neg goesOn]
        exact lines
  · unfold Walk.step
    rw [on_bind_ok looks, on_bind_ok ends]
    exact on_proceed (Machine.painted_take m') inside

/-- A walk goes as far as the machine goes. -/
theorem on_run (sized : d.Sized) {n : Nat} {text : List Char}
    (room : Room d o start first n text m) :
    (run o n text (behind start first m)).on (trail d o start first m) =
      (.ok (behind start first (m.run o n text)), trail d o start first (m.run o n text)) := by
  induction n generalizing text m with
  | zero => rfl
  | succ n ih =>
    cases text with
    | nil => rfl
    | cons c rest =>
      obtain ⟨further, steps⟩ := room.step sized
      exact (on_bind_ok steps _).trans (ih further)

theorem on_finish (sized : d.Sized) (inside : start + m.latest.length ≤ d.text.length) :
    (finish (behind start first m)).on (trail d o start first m) =
      (.ok (behind start first m.finish),
        d.written o start m.finish.styles first m.finish.lines.reverse) := by
  have latest : m.finish.latest.length = m.latest.length := by rw [Machine.latest_finish]
  have grows : m.painted <:+ m.finish.painted := Machine.painted_release _ { m with held := 0 }
  have all : m.finish.painted.reverse ++ List.replicate m.finish.runLength m.finish.style =
      m.finish.styles := by
    simp [Machine.styles]
  have written : start + m.finish.painted.length ≤ d.styles.length := by
    have le := m.finish.length_painted_le
    rw [sized.styles]
    omega
  have proceeds : (proceed m.finish (behind start first m)).on (trail d o start first m) =
      (.ok (behind start first m.finish), trail d o start first m.finish) := by
    rw [behind, behind, trail, trail, Machine.lines_finish]
    exact on_proceed grows written
  have whole : start + (m.finish.painted.reverse ++
      List.replicate m.finish.runLength m.finish.style).length ≤ d.styles.length := by
    rw [all, Machine.styles_eq, List.length_reverse, latest, sized.styles]
    exact inside
  have writes := @Document.on_writeStyles_written d o start first _ m.finish.lines.reverse _ whole
  rw [List.length_reverse, all] at writes
  unfold finish
  exact (on_bind_ok proceeds _).trans ((on_bind_ok writes _).trans rfl)

end Walk

namespace Document

open Writing

attribute [ext] Document

variable {d : Document} {start : Nat}

theorem fst_scanFrom (d : Document) (start n : Nat) (initStyle : Style) (o : ScanOptions)
    (x : Context) : (d.scanFrom start n initStyle o x).1 =
      d.written o start (d.scanMachine start n initStyle o x).finish.styles
        (d.lineAt start).toNat (d.scanMachine start n initStyle o x).finish.lines.reverse :=
  Document.ext rfl rfl
    (by rw [foldLevels_scanFrom, written, Machine.lines_finish])
    (by rw [lineStates_scanFrom, written, Machine.lines_finish])

/-- The line data that a scan reads is there. -/
theorem on_readLine (sized : d.Sized) (start : Nat) :
    (readLine start).on d = match d.lineContext start with
      | .ok x => (.ok x, d)
      | .error cause => (.error (.refused (.lineData cause)), d) := by
  have inside : lineEnds start d.text < d.lineCount := lineEnds_lt_length start d.text
  unfold readLine lineContext carriedInto
  rw [on_bind_ok on_get, lineAt_eq, Int.toNat_natCast]
  cases line : lineEnds start d.text with
  | zero => rfl
  | succ line' =>
    have above : ((line' + 1 : Nat) : Int) - 1 = line' := by omega
    have level : line' < d.foldLevels.length := by
      rw [sized.foldLevels]
      omega
    have state : line' < d.lineStates.length := by
      rw [sized.lineStates]
      omega
    have readLevel : d.foldLevel line' = .ok d.foldLevels[line'] := by
      rw [foldLevel, itemAt_natCast, List.getElem?_eq_getElem level]
    have readState : d.lineState line' = .ok d.lineStates[line'] := by
      rw [lineState, itemAt_natCast, List.getElem?_eq_getElem state]
    have positive : (0 : Int) < (line' + 1 : Nat) := by omega
    simp only [positive, if_true, Nat.succ_pos, Nat.add_sub_cancel, above,
      List.getElem?_eq_getElem level, List.getElem?_eq_getElem state, Option.getD_some]
    rw [on_bind_ok (on_check_ok _ readLevel), on_bind_ok (on_check_ok _ readState), on_check]
    cases LineState.decode _ _ <;> rfl

/-- Looking back from inside the text finds something or reaches its front. -/
theorem lookBack_eq (le : start ≤ d.text.length) :
    d.lookBack start = .ok (d.lastSignificant start) := by
  have inside : ¬(d.length : Int) < start := by
    unfold length
    omega
  unfold lastSignificant lookBack
  rw [if_neg inside]
  dsimp only
  cases List.find? _ _ <;> rfl

/-- The context in which a scan begins is read, unless the line state above is none. -/
theorem on_readContext (sized : d.Sized) (le : start ≤ d.text.length) (initStyle : Style) :
    (readContext start initStyle).on d = match d.contextAt start initStyle with
      | .ok x => (.ok x, d)
      | .error cause => (.error (.refused (.lineData cause)), d) := by
  have line := on_readLine sized start
  rw [contextAt_eq_map]
  unfold readContext
  cases found : d.lineContext start with
  | error cause =>
    rw [found] at line
    exact on_bind_error line _
  | ok x =>
    rw [found] at line
    rw [on_bind_ok line]
    simp only [Except.map, lookingBack]
    split
    · rw [on_bind_ok on_get, on_bind_ok (on_check_ok _ (lookBack_eq le))]
      rfl
    · rfl

/-- Wherever a scan begins, what it reads of the line above can be stored again. -/
theorem storable_contextAt {initStyle : Style} {x : Context}
    (restored : d.contextAt start initStyle = .ok x) (o : ScanOptions) :
    Context.Storable o x := by
  have level (stored : Option Int) : 0 ≤ FoldLevel.carried stored := by
    cases stored with
    | none => decide
    | some level => exact Int.emod_nonneg _ (by decide)
  rcases contextAt_cases restored with calm | ⟨state, -, -, calm⟩
  · refine (Context.storable_invariant o).nests ?_ calm.nests
    exact { Context.sound_initial.toBounded with foldHere := fun _ => by decide }
  · refine (Context.storable_invariant o).nests ?_ calm.nests
    exact { LineState.restore_bounded state _ with foldHere := fun _ => level _ }

/-- The walk through a range, and the writes that it leaves to the end. -/
theorem on_walk (sized : d.Sized) {n : Nat} (fits : start + n ≤ d.text.length)
    {initStyle : Style} {x : Context} (restored : d.contextAt start initStyle = .ok x)
    (o : ScanOptions) :
    let m := d.scanMachine start n initStyle o x
    let walked := Walk.behind start (lineEnds start d.text) m
    let left := Walk.trail d o start (lineEnds start d.text) m
    (Walk.run o n (d.text.drop start) ⟨d.machineAt start initStyle x, start, d.lineAt start⟩).on d =
        (.ok walked, left) ∧
      walked.finish.on left = (.ok (Walk.behind start (lineEnds start d.text) m.finish),
        (d.scanFrom start n initStyle o x).1) := by
  intro m walked left
  have room : Walk.Room d o start (lineEnds start d.text) n (d.text.drop start)
      (d.machineAt start initStyle x) :=
    { storable_contextAt restored o with
      styles := fits
      lines := lineEnds_add_finishedLines_le fits }
  have untouched : Walk.trail d o start (lineEnds start d.text) (d.machineAt start initStyle x) =
      d := d.written_nil o start _
  constructor
  · have walks := Walk.on_run sized room
    rw [untouched] at walks
    rw [lineAt_eq]
    exact walks
  · have latest : m.latest.length = n := d.length_latest_scanMachine fits initStyle o x
    rw [fst_scanFrom, lineAt_eq, Int.toNat_natCast]
    exact Walk.on_finish sized (by rw [latest]; exact fits)

/-- Scanning in place does what scanning does, and leaves the document as it was when the scan is
refused. -/
theorem on_scanInPlace (sized : d.Sized) (p : Place) (s : ScanSetup) (start length : Int)
    (initStyle : Style) :
    (scanInPlace p s start length initStyle).on d = match d.scan p s start length initStyle with
      | .ok (d', r) => (.ok r, d')
      | .error cause => (.error (.refused cause), d) := by
  unfold scanInPlace Document.scan
  rw [on_bind_ok on_get]
  cases range : d.checkRange start length with
  | error cause => exact on_bind_error (on_check_error _ rfl) _
  | ok =>
    obtain ⟨first, forward, inside⟩ := checkRange_eq_ok range
    obtain ⟨start, rfl⟩ := Int.eq_ofNat_of_zero_le first
    obtain ⟨n, rfl⟩ := Int.eq_ofNat_of_zero_le forward
    have fits : start + n ≤ d.text.length := by omega
    rw [on_bind_ok (on_check_ok _ rfl)]
    cases options : s.options p with
    | error cause => exact on_bind_error (on_check_error _ rfl) _
    | ok o =>
      rw [on_bind_ok (on_check_ok _ rfl)]
      simp only [scanRange, Int.toNat_natCast]
      have reads := on_readContext sized (Nat.le_of_add_right_le fits) initStyle
      cases restored : d.contextAt start initStyle with
      | error cause =>
        rw [restored] at reads
        exact on_bind_error reads _
      | ok x =>
        rw [restored] at reads
        rw [on_bind_ok reads]
        exact (on_bind_ok (on_walk sized fits restored o).1 _).trans
          ((on_bind_ok (on_walk sized fits restored o).2 _).trans rfl)

end Document

end CssHighlight
