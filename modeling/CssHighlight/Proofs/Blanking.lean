import CssHighlight.Proofs.Comments
import CssHighlight.Proofs.Variants

/-!
# Comments and blanks

A comment that is overwritten with blanks is compared with the blanks: up to the comment the rules
see the same ahead, unless a name in front of it looks for what follows; over the comment and
over the blanks the context stays; behind them the texts are the same.
-/
namespace CssHighlight

/-- A name in front of a gap looks for a colon or a parenthesis behind it, and one stands there.
The text in front has its last character first. -/
def AsksBehind (seen behind : List Char) : Prop :=
  (Machine.nextSolid seen).any isRunChar = true ∧
    (Machine.nextSolid behind = some ':' ∨ Machine.nextSolid behind = some '(')

instance (seen behind : List Char) : Decidable (AsksBehind seen behind) :=
  inferInstanceAs (Decidable (_ ∧ _))

/-- Blanks in the place of the characters between two positions. -/
def blankOut (start stop : Nat) (text : List Char) : List Char :=
  text.take start ++ (List.replicate (stop - start) ' ' ++ text.drop stop)

section Texts

variable {front gap gap' text text' rest behind : List Char}

/-- The front of a text that goes on at a position. -/
theorem eq_append_of_drop {start : Nat} {c : Char} (ahead : text.drop start = c :: rest) :
    ∃ front, text = front ++ c :: rest ∧ start = front.length := by
  refine ⟨text.take start, by rw [← ahead, List.take_append_drop], ?_⟩
  have inside := congrArg List.length ahead
  simp only [List.length_drop, List.length_cons] at inside
  rw [List.length_take]
  omega

theorem blankOut_append (front gap behind : List Char) :
    blankOut front.length (front.length + gap.length) (front ++ (gap ++ behind)) =
      front ++ (List.replicate gap.length ' ' ++ behind) := by
  rw [blankOut, List.take_left, ← List.drop_drop, List.drop_left, List.drop_left,
    Nat.add_sub_cancel_left]

theorem lineEnds_plain (plain : ∀ c ∈ gap, isLineBreak c = false) (behind : List Char) :
    lineEnds (gap ++ behind).length (gap ++ behind) = lineEnds behind.length behind := by
  induction gap with
  | nil => rfl
  | cons c gap ih =>
    obtain ⟨first, others⟩ := List.forall_mem_cons.mp plain
    have goesOn : endsLine c (gap ++ behind) = false := by
      obtain ⟨feed, carriage⟩ : c ≠ '\n' ∧ c ≠ '\r' := by simpa [isLineBreak] using first
      simp [endsLine, feed, carriage]
    rw [List.cons_append, List.length_cons, lineEnds_cons, ih others, goesOn]
    rfl

theorem lineEnds_append_congr (same : lineEnds text.length text = lineEnds text'.length text')
    (feed : text.head? ≠ some '\n') (feed' : text'.head? ≠ some '\n') (front : List Char) :
    lineEnds (front ++ text).length (front ++ text) =
      lineEnds (front ++ text').length (front ++ text') := by
  induction front with
  | nil => exact same
  | cons c front ih =>
    have ends : endsLine c (front ++ text) = endsLine c (front ++ text') := by
      cases front with
      | nil =>
        show (_ || _ && text.head? != some '\n') = (_ || _ && text'.head? != some '\n')
        rw [bne_iff_ne.mpr feed, bne_iff_ne.mpr feed']
      | cons => rfl
    simp only [List.cons_append, List.length_cons, lineEnds_cons, ih, ends]

/-- Blanks in the place of characters that break no line leave the number of lines as it was. -/
theorem length_lineStarts_blanks (plain : ∀ c ∈ gap, isLineBreak c = false) (front : List Char)
    (behind : List Char) :
    (lineStarts (front ++ (List.replicate gap.length ' ' ++ behind))).length =
      (lineStarts (front ++ (gap ++ behind))).length := by
  cases gap with
  | nil => rfl
  | cons c gap =>
    have blank : ∀ x ∈ List.replicate (c :: gap).length ' ', isLineBreak x = false := by
      simp [List.mem_replicate, isLineBreak]
    have feed : c ≠ '\n' := by
      rintro rfl
      cases plain '\n' List.mem_cons_self
    rw [length_lineStarts, length_lineStarts, lineEnds_append_congr
      ((lineEnds_plain blank behind).trans (lineEnds_plain plain behind).symm)
      (by simp [List.replicate_succ]) (by simpa using feed) front]

end Texts

namespace Machine

variable {o : ScanOptions} {c : Char} {seen rest text text' front tail tail' : List Char}
  {styles : List Style} {lines : List LineData} {m m' k : Machine}

/-! ### What cannot stand in front of a comment -/

theorem held_take (m : Machine) : (m.take o c rest).held = m.held := by
  cases take_taken o c rest m with
  | released free _ _ _ held => rw [held, free]
  | goesOn _ _ _ held => exact held

/-- No comment opens within strings and bare addresses. -/
theorem Opens.not_quoted (opens : Opens o '/' rest m) : m.style.isQuoted = false := by
  refine Bool.eq_false_iff.mpr fun quoted => ?_
  have looked : m.look o '/' rest = m := by
    have same : m.stepQuoted o '/' rest = m := stepQuoted_dull o rfl rest m
    unfold look stepRun
    cases style : m.style <;> simp_all [Style.isQuoted]
  have inside := opens.inside
  rw [looked, opens.outside] at inside
  cases inside

/-- No comment opens within comments of one line. -/
theorem Opens.not_line (opens : Opens o '/' rest m) (goesOn : m.atLineStart = false) :
    m.style ≠ .lineComment ∧ m.style ≠ .lineCommentDoc := by
  have inside := opens.inside
  constructor <;> intro style <;>
    simp [look, stepRun, style, goesOn, Style.isBlockComment] at inside

/-- The slash of the mark does not close another comment. -/
theorem Opens.not_closing (opens : Opens o '/' tail (m.step o '*' ('/' :: tail)))
    (held : m.held = 0) (block : m.style.isBlockComment = true) : False := by
  have free := opens.held
  rw [step, if_pos held, look_block block, if_pos ⟨rfl, rfl⟩, held_take] at free
  cases free

theorem startToken_star (m : Machine) (rest : List Char) : ∃ style, style.isBlockComment = true ∧
    m.startToken o '/' ('*' :: rest) =
      ((m.update Context.unfold).start style ('/' :: '*' :: rest)).hold 1 := by
  refine ⟨if rest.head? = some '!' ∨ rest.head? = some '*' then .blockCommentDoc
    else .blockComment, ?_, ?_⟩
  · split <;> rfl
  · rw [startToken, if_pos (by simp)]
    rfl

theorem startToken_slashes (m : Machine) (rest : List Char) : ∃ style,
    (style = .lineComment ∨ style = .lineCommentDoc) ∧
      m.startToken o '/' ('/' :: rest) = (m.start style ('/' :: '/' :: rest)).hold 1 := by
  refine ⟨if rest.head? = some '!' ∨ rest.head? = some '/' then .lineCommentDoc else .lineComment,
    ?_, ?_⟩
  · split
    · exact .inr rfl
    · exact .inl rfl
  · rw [startToken, if_neg (by simp), if_pos (by simp)]
    rfl

/-- Neither does it open a comment of one line. -/
theorem Opens.not_slashes (opens : Opens o '/' tail (m.step o '/' ('/' :: tail)))
    (held : m.held = 0) (looks : m.look o '/' ('/' :: tail) = k.startToken o '/' ('/' :: tail)) :
    False := by
  obtain ⟨style, -, begun⟩ := @startToken_slashes o k tail
  have free := opens.held
  rw [step, if_pos held, looks, begun, held_take] at free
  cases free

/-- Nor does it stand directly behind two slashes that open one. -/
theorem Opens.not_behind_slashes
    (opens : Opens o '/' tail (m.run o 2 ('/' :: '/' :: '/' :: tail))) (held : m.held = 0)
    (looks : m.look o '/' ('/' :: '/' :: tail) = k.startToken o '/' ('/' :: '/' :: tail))
    (after : k.after = none) : False := by
  obtain ⟨style, line, begun⟩ := @startToken_slashes o k ('/' :: tail)
  have first : m.step o '/' ('/' :: '/' :: tail) =
      ((k.start style ('/' :: '/' :: '/' :: tail)).hold 1).take o '/' ('/' :: '/' :: tail) := by
    rw [step, if_pos held, looks, begun]
  have taken : (m.run o 2 ('/' :: '/' :: '/' :: tail)).style = style ∧
      (m.run o 2 ('/' :: '/' :: '/' :: tail)).atLineStart = false := by
    show ((m.step o '/' ('/' :: '/' :: tail)).step o '/' ('/' :: tail)).style = style ∧
      ((m.step o '/' ('/' :: '/' :: tail)).step o '/' ('/' :: tail)).atLineStart = false
    rw [first]
    simp [step, take, release, hold, start, after, lastOfLine_eq, isLineBreak]
  obtain ⟨plain, doc⟩ := opens.not_line taken.2
  rw [taken.1] at plain doc
  exact line.elim plain doc

/-- A bare address goes on over blanks. -/
theorem run_url {blanks : List Char} (blank : ∀ c ∈ blanks, isSeparator c = true)
    (url : m.style = .url) (held : m.held = 0) (after : m.after = none) :
    (m.run o blanks.length (blanks ++ text)).style = .url := by
  induction blanks generalizing m with
  | nil => exact url
  | cons c blanks ih =>
    obtain ⟨first, others⟩ := List.forall_mem_cons.mp blank
    have looked : m.look o c (blanks ++ text) = m := by
      rw [look, if_neg (by simp [url]), stepRun, url]
      exact stepQuoted_dull o (isDull_of_isSeparator first) _ m
    have taken : m.step o c (blanks ++ text) = m.take o c (blanks ++ text) := by
      rw [step, if_pos held, looked]
    rw [List.length_cons, List.cons_append, run, taken, take_eq held after]
    exact ih others url held after

/-- Neither does a comment open behind the parenthesis of a bare address. -/
theorem Opens.not_address {blanks : List Char} (blank : ∀ c ∈ blanks, isSeparator c = true)
    (opens : Opens o '/' tail (m.run o (blanks.length + 1) ('(' :: (blanks ++ '/' :: tail))))
    (held : m.held = 0) (name : m.style = .identifier)
    (address : opensUrl m.runName (nextSolid (blanks ++ '/' :: tail)) o.dialect = true) :
    False := by
  have looked : m.look o '(' (blanks ++ '/' :: tail) =
      ((m.update fun context => context.unfold.enterParen).start .operator
        ('(' :: (blanks ++ '/' :: tail))).thenStart .url := by
    rw [look, if_neg (by simp [name]), stepRun, name, closeRun, name]
    simp [isRunChar, isNameChar, isNameStart, isDigit, isClassified, address]
  obtain ⟨url, free, idle⟩ : (m.step o '(' (blanks ++ '/' :: tail)).style = .url ∧
      (m.step o '(' (blanks ++ '/' :: tail)).held = 0 ∧
      (m.step o '(' (blanks ++ '/' :: tail)).after = none := by
    rw [step, if_pos held, looked]
    cases take_taken o '(' (blanks ++ '/' :: tail) _ with
    | released _ waits style _ held after =>
      exact ⟨style.trans (Option.some.inj waits).symm, held, after⟩
    | goesOn idle => exact absurd (idle held) (Option.some_ne_none _)
  have quoted := opens.not_quoted
  rw [run, run_url blank url free idle] at quoted
  cases quoted

/-! ### Up to the comment -/

theorem isSeparator_of_nextSolid {blanks : List Char} (none : nextSolid blanks = none) :
    ∀ c ∈ blanks, isSeparator c = true := by
  simpa [nextSolid] using none

theorem glance_gap (tail tail' : List Char) : Glance isDull ('/' :: tail) (' ' :: tail') :=
  have both : BothStop isDull '/' ' ' := ⟨rfl, rfl, rfl⟩
  .stop both tail tail'

/-- Behind a name that has just ended a comment and blanks show the same mark. -/
theorem sameMark_gap (last : seen.head?.any isRunChar = true)
    (silent : ¬AsksBehind (front.reverse ++ seen) tail') :
    SameMark nameMarks (nextSolid (front ++ '/' :: tail)) (nextSolid (front ++ ' ' :: tail')) := by
  rw [nextSolid_append, nextSolid_append]
  cases blank : nextSolid front with
  | some => exact SameMark.refl _ _
  | none =>
    have before : nextSolid front.reverse = none := by
      simpa [nextSolid] using isSeparator_of_nextSolid blank
    have asks : (nextSolid (front.reverse ++ seen)).any isRunChar = true := by
      rw [nextSolid_append, before]
      cases seen with
      | nil => cases last
      | cons x seen =>
        have solid : isSeparator x = false := isSeparator_of_isRunChar last
        rwa [nextSolid, List.find?_cons_of_pos (by simp [solid])]
    have other : ∀ mark ∈ nameMarks, nextSolid tail' ≠ some mark := by
      simpa [nameMarks] using fun next => silent ⟨asks, next⟩
    intro mark member
    refine iff_of_false ?_ (other mark member)
    rintro ⟨⟩
    revert member
    decide

/-- In front of a gap a name ends alike, whether a comment or blanks stand in it. -/
theorem Steady.sameNameEnd (steady : Steady o seen (c :: (front ++ '/' :: tail)) m)
    (opens : Opens o '/' tail (m.run o (front.length + 1) (c :: (front ++ '/' :: tail))))
    (silent : ¬AsksBehind ((c :: front).reverse ++ seen) tail') (name : m.style = .identifier) :
    SameNameEnd o c (front ++ '/' :: tail) c (front ++ ' ' :: tail') m where
  address := by
    rintro rfl
    cases blank : nextSolid front with
    | some => rw [nextSolid_append, nextSolid_append, blank]; rfl
    | none =>
      have slash : nextSolid (front ++ '/' :: tail) = some '/' := by
        rw [nextSolid_append, blank]; rfl
      have other := Bool.eq_false_iff.mpr (mt
        (opens.not_address (isSeparator_of_nextSolid blank) (steady.name name).1 name) id)
      -- A slash does not decide against an address, so that the name does.
      have plain : m.runName.any urlFunctions.contains = false := by
        simpa [opensUrl, slash] using other
      simp [opensUrl, plain]
  name := fun paren => by
    have last := steady.previous ▸ (steady.name name).2
    exact @classifyName_eq ⟨some c, nextSolid (c :: (front ++ '/' :: tail)), _, _⟩
      ⟨some c, nextSolid (c :: (front ++ ' ' :: tail')), _, _⟩ (by simpa) (by simpa)
      (sameMark_gap last silent) rfl rfl _ _

/-- In front of a gap alike machines go on alike, whether a comment or blanks stand in it. -/
theorem Alike.step_gap
    (h : Alike o (c :: (front ++ '/' :: tail)) (c :: (front ++ ' ' :: tail')) styles lines m m')
    (steady : Steady o seen (c :: (front ++ '/' :: tail)) m)
    (opens : Opens o '/' tail (m.run o (front.length + 1) (c :: (front ++ '/' :: tail))))
    (silent : ¬AsksBehind ((c :: front).reverse ++ seen) tail') :
    Alike o (front ++ '/' :: tail) (front ++ ' ' :: tail') styles lines
      (m.step o c (front ++ '/' :: tail)) (m'.step o c (front ++ ' ' :: tail')) := by
  have glance : Glance isDull (front ++ '/' :: tail) (front ++ ' ' :: tail') :=
    Glance.append front (glance_gap tail tail')
  have ends : lastOfLine c (front ++ '/' :: tail) = lastOfLine c (front ++ ' ' :: tail') := by
    cases front <;> rfl
  by_cases held : m.held = 0
  case neg => exact h.step (fun free => absurd free held) (fun free => absurd free held) ends
  have sight : SameSight o c (front ++ '/' :: tail) c (front ++ ' ' :: tail') m :=
    { glance := glance.cons c
      closes := by
        rintro (block | ⟨escape, block⟩) rfl
        · cases front with
          | nil => exact (opens.not_closing held block).elim
          | cons => exact Iff.rfl
        · have quoted := Style.isBlockComment_of_isQuoted (steady.escape escape)
          rw [block] at quoted
          cases quoted
      name := steady.sameNameEnd opens silent }
  have going := h.going sight
  rw [Machine.step, Machine.step, if_pos held, if_pos (h.held.symm.trans held)]
  refine Alike.take ?_ ends
  generalize looked : m.look o c (front ++ '/' :: tail) = found,
    m'.look o c (front ++ ' ' :: tail') = found' at going ⊢
  cases going with
  | stays alike => exact alike
  | token alike _ waits =>
    refine alike.startToken (glance.cons c) ?_
    -- The slash of the mark does not belong to a comment of one line.
    by_cases slash : c = '/'
    case neg => exact .of_ne slash slash
    subst slash
    cases front with
    | nil => exact (opens.not_slashes held looked).elim
    | cons x front =>
      refine ⟨fun _ => ⟨rfl, glance⟩, fun _ => Iff.rfl, fun _ second => ?_⟩
      cases front with
      | cons => exact SameMark.refl _ _
      | nil =>
        obtain rfl := Option.some.inj second
        exact (opens.not_behind_slashes held looked (waits.trans (steady.idle held))).elim

/-- Up to a gap, in which a comment stands or blanks do, two scans are alike. -/
theorem Alike.run_gap
    (h : Alike o (front ++ '/' :: tail) (front ++ ' ' :: tail') styles lines m m')
    (steady : Steady o seen (front ++ '/' :: tail) m)
    (opens : Opens o '/' tail (m.run o front.length (front ++ '/' :: tail)))
    (silent : ¬AsksBehind (front.reverse ++ seen) tail') :
    Alike o ('/' :: tail) (' ' :: tail') styles lines
      (m.run o front.length (front ++ '/' :: tail))
      (m'.run o front.length (front ++ ' ' :: tail')) := by
  induction front generalizing seen m m' with
  | nil => exact h
  | cons c front ih =>
    exact ih (h.step_gap steady opens silent) steady.step opens (by simpa using silent)

/-! ### Over the comment -/

/-- At the gap the comment and the blanks begin behind alike machines. -/
theorem Alike.look_gap (h : Alike o ('/' :: tail) (' ' :: tail') styles lines m m')
    (steady : Steady o seen ('/' :: tail) m) (opens : Opens o '/' tail m)
    (silent : ¬AsksBehind seen tail') :
    ∃ k k', Alike o ('/' :: tail) (' ' :: tail') styles lines k k' ∧ k.style = .default ∧
      k.held = 0 ∧ k.after = none ∧ m.look o '/' tail = k.startToken o '/' tail ∧
      m'.look o ' ' tail' = k' := by
  have sight : SameSight o '/' tail ' ' tail' m :=
    { glance := glance_gap tail tail'
      closes := by rintro - ⟨⟩
      name := fun name => .of_marks (iff_of_false (by decide) (by decide)) (by rintro ⟨⟩)
        fun _ => @sameMark_gap seen [] tail tail' (steady.previous ▸ (steady.name name).2) silent }
  have going := h.going sight
  have inside := opens.inside
  generalize m.look o '/' tail = found, looked : m'.look o ' ' tail' = found' at going inside ⊢
  cases going with
  | @token k k' alike blank waits free =>
    exact ⟨k, k', alike, blank, free.trans opens.held, waits.trans (steady.idle opens.held), rfl,
      startToken_separator o rfl tail' k'⟩
  | stays alike =>
    -- No comment opens at a blank.
    have opens' : Opens o ' ' tail' m' :=
      ⟨h.held ▸ opens.held, h.style ▸ opens.outside, looked ▸ alike.style ▸ inside⟩
    have escape : m'.style = .escapeChar → m'.context.escape.outer.isQuoted = true := by
      intro same
      have same := h.style.trans same
      exact (h.context.outer same).1 ▸ steady.escape same
    obtain ⟨⟨⟩, -⟩ := opens'.begun escape

/-- Over the gap: one scan passes the comment and the other one the blanks, behind alike
machines. -/
theorem Alike.passed_gap {n : Nat} {behind : List Char}
    (h : Alike o ('/' :: '*' :: rest) (' ' :: (List.replicate (n + 1) ' ' ++ behind)) styles
      lines m m')
    (steady : Steady o seen ('/' :: '*' :: rest) m) (opens : Opens o '/' ('*' :: rest) m)
    (closes : commentLength rest = some n)
    (silent : ¬AsksBehind seen (List.replicate (n + 1) ' ' ++ behind)) :
    ∃ k k' paint, Alike o ('/' :: '*' :: rest) (' ' :: (List.replicate (n + 1) ' ' ++ behind))
        styles lines k k' ∧ k.style = .default ∧
      Passed o paint ('/' :: '*' :: rest.take n) (rest.drop n) k
        (m.run o (n + 2) ('/' :: '*' :: rest)) ∧
      Passed o .default (List.replicate (n + 2) ' ') behind k'
        (m'.run o (n + 2) (List.replicate (n + 2) ' ' ++ behind)) := by
  obtain ⟨k, k', alike, blank, free, after, looked, looked'⟩ := h.look_gap steady opens silent
  have style' : k'.style = .default := alike.style.symm.trans blank
  have free' : k'.held = 0 := alike.held.symm.trans free
  have passed' := @passed_blanks o k' style' free' (alike.after.symm.trans after) (n + 1) behind
  -- The blank is looked at once more behind the run that ended in front of it.
  have again : k'.look o ' ' (List.replicate (n + 1) ' ' ++ behind) = k' := by
    rw [Machine.look, if_neg (by simp [style']), Machine.stepRun, style']
    exact startToken_separator o rfl _ k'
  have run : m'.run o (n + 2) (List.replicate (n + 2) ' ' ++ behind) =
      k'.run o (n + 2) (List.replicate (n + 2) ' ' ++ behind) := by
    rw [List.replicate_succ, List.cons_append, Machine.run, Machine.run, Machine.step,
      Machine.step, if_pos (h.held ▸ opens.held), if_pos free', looked', again]
  obtain ⟨paint, block, begun⟩ := @startToken_star o k rest
  have passed := passed_comment after block closes opens.held (looked.trans begun)
  exact ⟨k, k', paint, alike, blank, passed, run ▸ style' ▸ passed'⟩

/-! ### Behind the comment -/

/-- Behind passed texts scans go on alike when they do in front of them. -/
theorem Passed.alike {paint paint' : Style} {passed passed' behind : List Char} {k k' : Machine}
    (h : Passed o paint passed behind k m) (h' : Passed o paint' passed' behind k' m')
    (plain : ∀ c ∈ passed, isLineBreak c = false) (plain' : ∀ c ∈ passed', isLineBreak c = false)
    (context : Context.Alike o .default k.context k'.context) :
    Alike o behind behind m.latest m.lines m (m'.anew behind) where
  style := h.style.trans h'.style.symm
  held := h.held
  after := h.after
  waits := by simp [h.after]
  previous := .inr ⟨h.previous, h'.previous⟩
  atLineStart := (h.atLineStart plain).trans (h'.atLineStart plain').symm
  run := fun reads => by rw [h.style] at reads; cases reads
  context := by
    rw [h.style, h.context plain]
    show Context.Alike o .default _ m'.context
    rw [h'.context plain']
    split
    · exact context.endLine
    · exact context
  latest := rfl
  lines := rfl

theorem nextSolid_replicate (n : Nat) (text : List Char) :
    nextSolid (List.replicate n ' ' ++ text) = nextSolid text := by
  have blank : nextSolid (List.replicate n ' ') = none := by simp [nextSolid, isSeparator]
  rw [nextSolid_append, blank]
  rfl

/-- Scans that are alike in front of what they pass write the same behind it. -/
theorem Passed.writes {paint paint' : Style} {passed passed' behind : List Char} {k k' : Machine}
    (h : Passed o paint passed behind k m) (h' : Passed o paint' passed' behind k' m')
    (plain : ∀ c ∈ passed, isLineBreak c = false) (plain' : ∀ c ∈ passed', isLineBreak c = false)
    (alike : Alike o text text' [] [] k k') (blank : k.style = .default) :
    ∃ later,
      (m.run o behind.length behind).styles =
        k'.styles ++ (List.replicate passed.length paint ++ later) ∧
      (m'.run o behind.length behind).styles =
        k'.styles ++ (List.replicate passed'.length paint' ++ later) ∧
      (m'.run o behind.length behind).lines = (m.run o behind.length behind).lines := by
  have context : Context.Alike o .default k.context k'.context := blank ▸ alike.context
  have further := (h.alike h' plain plain' context).run_same behind.length
  have further' := (h'.alike h' plain' plain' (context.right rfl)).run_same behind.length
  refine ⟨((m'.anew behind).run o behind.length behind).latest.reverse, ?_, ?_, ?_⟩
  · rw [styles_eq, further.latest, h.latest, alike.latest]
    simp [styles_eq]
  · rw [styles_eq, further'.latest, h'.latest]
    simp [styles_eq]
  · rw [further.lines, further'.lines, h.lines plain, h'.lines plain', alike.lines,
      context.lineData_eq]
    simp

/-- A scan that passes blanks in the place of a comment writes the same lines, and the same styles
outside the comment. -/
theorem scanned_gap {n : Nat} (closes : commentLength rest = some n)
    (opens : Opens o '/' ('*' :: rest) (scanned o front.length (front ++ '/' :: '*' :: rest)))
    (plain : ∀ c ∈ '/' :: '*' :: rest.take n, isLineBreak c = false)
    (silent : ¬AsksBehind front.reverse (rest.drop n)) :
    let text := front ++ '/' :: '*' :: rest
    let blanked := front ++ (List.replicate (n + 2) ' ' ++ rest.drop n)
    ∃ before paint later, before.length = front.length ∧
      (scanned o text.length text).styles = before ++ (List.replicate (n + 2) paint ++ later) ∧
      (scanned o blanked.length blanked).styles =
        before ++ (List.replicate (n + 2) .default ++ later) ∧
      (scanned o blanked.length blanked).lines = (scanned o text.length text).lines := by
  intro text blanked
  have le := commentLength_le closes
  have steady : Steady o front.reverse ('/' :: '*' :: rest) (scanned o front.length text) := by
    simpa [text] using steady_scanned o front.length text
  have come : Alike o ('/' :: '*' :: rest) (' ' :: (List.replicate (n + 1) ' ' ++ rest.drop n))
      [] [] (scanned o front.length text) (scanned o front.length blanked) :=
    (alike_fresh o text blanked).run_gap (steady_fresh o text) opens
      (by simpa [AsksBehind, nextSolid_replicate] using silent)
  obtain ⟨k, k', paint, alike, blank, passed, passed'⟩ := come.passed_gap steady opens closes
    (by simpa [AsksBehind, nextSolid_replicate] using silent)
  obtain ⟨later, styles, styles', lines⟩ := passed.writes passed' plain
    (by simp [List.mem_replicate, isLineBreak]) alike blank
  have whole : scanned o text.length text = ((scanned o front.length text).run o (n + 2)
      ('/' :: '*' :: rest)).run o (rest.drop n).length (rest.drop n) := by
    have length : text.length = front.length + (n + 2 + (rest.drop n).length) := by
      simp only [text, List.length_append, List.length_cons, List.length_drop]
      omega
    rw [length, scanned_add, run_add, List.drop_left]
    rfl
  have whole' : scanned o blanked.length blanked = ((scanned o front.length blanked).run o (n + 2)
      (List.replicate (n + 2) ' ' ++ rest.drop n)).run o (rest.drop n).length (rest.drop n) := by
    have length : blanked.length = front.length + (n + 2 + (rest.drop n).length) := by
      simp only [blanked, List.length_append, List.length_replicate]
    rw [length, scanned_add, run_add, List.drop_left, List.drop_left' (by simp)]
  have size : k'.styles.length = front.length := by
    have passed := congrArg List.length passed'.latest
    rw [length_latest_run (by simp), length_latest_scanned (by simp [blanked])] at passed
    simp only [List.length_append, List.length_replicate] at passed
    rw [styles_eq, List.length_reverse]
    omega
  rw [← whole] at styles lines
  rw [← whole'] at styles' lines
  refine ⟨k'.styles, paint, later, size, ?_, ?_, lines⟩
  · rw [styles, List.length_cons, List.length_cons, List.length_take_of_le le]
  · rw [styles', List.length_replicate]

end Machine

namespace Document

variable {p : Place} {s : ScanSetup} {o : ScanOptions}

/-- A block comment within a line that is overwritten with blanks leaves every fold level, every
line state and every style outside it as they were, unless a name in front of it looks for the
colon or the parenthesis behind it. -/
theorem scanAll_blankOut (options : s.options p = .ok o) (text : List Char) :
    ∃ d r, (ofChars text).scanAll p s = .ok (d, r) ∧ d.text = text ∧
      ∀ {start stop}, d.Comment start stop →
        (∀ c ∈ (text.drop start).take (stop - start), isLineBreak c = false) →
        ¬AsksBehind (text.take start).reverse (text.drop stop) →
        ∃ d' r', (ofChars (blankOut start stop text)).scanAll p s = .ok (d', r') ∧
          d'.text = blankOut start stop text ∧ d'.lineCount = d.lineCount ∧
          d'.foldLevels = d.foldLevels ∧ d'.lineStates = d.lineStates ∧
          d'.styles = d.styles.take start ++
            (List.replicate (stop - start) .default ++ d.styles.drop stop) := by
  obtain ⟨d, r, scanned, sized, written⟩ := scanAll_written options text
  refine ⟨d, r, scanned, written.text, fun {start stop} comment plain silent => ?_⟩
  have same : d.text = text := written.text
  obtain ⟨rest, n, ahead, closes, rfl, opens⟩ := comment.opened (by
    rw [same]
    exact written.styles_scanned)
  rw [same] at ahead opens
  obtain ⟨front, rfl, rfl⟩ := eq_append_of_drop ahead
  have size : ('/' :: '*' :: rest.take n).length = n + 2 := by simp [commentLength_le closes]
  have whole : front ++ '/' :: '*' :: rest =
      front ++ ('/' :: '*' :: rest.take n ++ rest.drop n) := by simp
  have stop : front.length + 2 + n = front.length + ('/' :: '*' :: rest.take n).length := by
    rw [size, Nat.add_assoc, Nat.add_comm 2]
  have gap : ((front ++ '/' :: '*' :: rest).drop front.length).take
      (front.length + 2 + n - front.length) = '/' :: '*' :: rest.take n := by
    rw [List.drop_left, stop, Nat.add_sub_cancel_left, size]
    rfl
  have behind : (front ++ '/' :: '*' :: rest).drop (front.length + 2 + n) = rest.drop n := by
    rw [whole, stop, ← List.drop_drop, List.drop_left, List.drop_left]
  have blanked : blankOut front.length (front.length + 2 + n) (front ++ '/' :: '*' :: rest) =
      front ++ (List.replicate (n + 2) ' ' ++ rest.drop n) := by
    rw [whole, stop, blankOut_append, size]
  rw [gap] at plain
  rw [List.take_left, behind] at silent
  obtain ⟨d', r', scanned', -, written'⟩ := scanAll_written options
    (front ++ (List.replicate (n + 2) ' ' ++ rest.drop n))
  obtain ⟨before, paint, later, length, styles, styles', lines⟩ :=
    Machine.scanned_gap closes opens plain silent
  have count := length_lineStarts_blanks plain front (rest.drop n)
  rw [size, ← whole] at count
  obtain ⟨foldLevels, lineStates⟩ := written'.lineData_eq written lines count
  rw [blanked]
  refine ⟨d', r', scanned', written'.text, ?_, foldLevels, lineStates, ?_⟩
  · rw [lineCount, lineCount, written'.text, same]
    exact count
  · rw [written'.styles_scanned, styles', written.styles_scanned, styles, stop, size, ← length,
      List.take_left, ← List.drop_drop, List.drop_left, List.drop_left' List.length_replicate,
      Nat.add_sub_cancel_left]

/-- A comment between a colon and a parenthesis, for which no name looks. -/
theorem scanAll_blankOut_paren :
    ∃ d r d' r', (ofChars [':', '/', '*', '*', '/', '(']).scanAll default {} = .ok (d, r) ∧
      d.Comment 1 5 ∧
      (ofChars [':', ' ', ' ', ' ', ' ', '(']).scanAll default {} = .ok (d', r') ∧
      d'.foldLevels = d.foldLevels ∧ d'.lineStates = d.lineStates ∧
      d'.styles = d.styles.take 1 ++ (List.replicate 4 .default ++ d.styles.drop 5) := by
  obtain ⟨d, r, scanned, -, kept⟩ :=
    scanAll_blankOut (p := default) (s := {}) (o := ⟨.standard, true, .builtin⟩) rfl
      [':', '/', '*', '*', '/', '(']
  obtain ⟨d₀, r₀, scanned₀, comment⟩ :
      ∃ d r, (ofChars [':', '/', '*', '*', '/', '(']).scanAll default {} = .ok (d, r) ∧
        d.Comment 1 5 :=
    ⟨_, _, rfl, .first (n := 2) rfl (by rintro _ ⟨⟩; rfl) rfl⟩
  obtain rfl : d₀ = d := (Prod.mk.inj (Except.ok.inj (scanned₀.symm.trans scanned))).1
  obtain ⟨d', r', scanned', -, -, foldLevels, lineStates, styles⟩ :=
    kept comment (by simp [isLineBreak]) (by decide)
  exact ⟨d₀, r, d', r', scanned, comment, scanned', foldLevels, lineStates, styles⟩

/-- A comment between a property and its colon hides the colon, so that the name is no property. -/
theorem scanAll_blankOut_ne :
    ∃ d r d' r', (ofChars ['(', 'b', '/', '*', '*', '/', ':', 'c']).scanAll default {} =
        .ok (d, r) ∧ d.Comment 2 6 ∧
      (ofChars ['(', 'b', ' ', ' ', ' ', ' ', ':', 'c']).scanAll default {} = .ok (d', r') ∧
      d.styleAt 1 = .ok .identifier ∧ d'.styleAt 1 = .ok .property :=
  ⟨_, _, _, _, rfl, .first (n := 2) rfl (by rintro _ ⟨⟩; rfl) rfl, rfl, rfl, rfl⟩

end Document

end CssHighlight
