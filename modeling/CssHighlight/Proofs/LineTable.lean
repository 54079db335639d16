import CssHighlight.Document.Basic
import CssHighlight.Scan.Machine

/-!
# The line table

The line that holds a position is found by counting line breaks, and the lines that end within a
piece of text by counting the characters at which one ends. The two counts agree wherever a line
starts, which is what lets the data of finished lines be written one behind the other.
-/
namespace CssHighlight

/-- How many of the first characters of a text satisfy a condition, which may look at the text
behind the character. -/
def countAhead (p : Char → List Char → Bool) : Nat → List Char → Nat
  | 0, _ => 0
  | _ + 1, [] => 0
  | n + 1, c :: rest => countAhead p n rest + if p c rest then 1 else 0

theorem countAhead_nil (p : Char → List Char → Bool) (n : Nat) : countAhead p n [] = 0 := by
  cases n <;> rfl

theorem countAhead_add (p : Char → List Char → Bool) (a b : Nat) (text : List Char) :
    countAhead p (a + b) text = countAhead p a text + countAhead p b (text.drop a) := by
  induction a generalizing text with
  | zero => simp [countAhead]
  | succ a ih =>
    cases text with
    | nil => simp [countAhead_nil]
    | cons c rest =>
      rw [Nat.succ_add]
      simp only [countAhead, List.drop_succ_cons, ih rest]
      omega

/-- How many line breaks end within the first characters of a text. -/
def lineEnds (n : Nat) (text : List Char) : Nat :=
  countAhead endsLine n text

/-- How many lines end within the first characters of a text; the end of the text ends one. -/
def finishedLines (n : Nat) (text : List Char) : Nat :=
  countAhead Machine.lastOfLine n text

@[simp] theorem lineEnds_nil (n : Nat) : lineEnds n [] = 0 :=
  countAhead_nil _ n

@[simp] theorem finishedLines_nil (n : Nat) : finishedLines n [] = 0 :=
  countAhead_nil _ n

theorem lineEnds_cons (n : Nat) (c : Char) (rest : List Char) :
    lineEnds (n + 1) (c :: rest) = lineEnds n rest + if endsLine c rest then 1 else 0 :=
  rfl

theorem finishedLines_cons (n : Nat) (c : Char) (rest : List Char) :
    finishedLines (n + 1) (c :: rest) =
      finishedLines n rest + if Machine.lastOfLine c rest then 1 else 0 :=
  rfl

theorem lineEnds_add (a b : Nat) (text : List Char) :
    lineEnds (a + b) text = lineEnds a text + lineEnds b (text.drop a) :=
  countAhead_add _ a b text

theorem finishedLines_add (a b : Nat) (text : List Char) :
    finishedLines (a + b) text = finishedLines a text + finishedLines b (text.drop a) :=
  countAhead_add _ a b text

theorem isLineBreak_of_endsLine {c : Char} {rest : List Char} (ends : endsLine c rest = true) :
    isLineBreak c = true := by
  simp only [endsLine, isLineBreak, Bool.or_eq_true, Bool.and_eq_true] at ends ⊢
  exact ends.imp_right And.left

theorem lineEnds_mono {a b : Nat} (le : a ≤ b) (text : List Char) :
    lineEnds a text ≤ lineEnds b text := by
  induction a generalizing b text with
  | zero => exact Nat.zero_le _
  | succ a ih =>
    obtain ⟨b, rfl⟩ : ∃ k, b = k + 1 := ⟨b - 1, by omega⟩
    cases text with
    | nil => simp
    | cons c rest => exact Nat.add_le_add_right (ih (by omega) rest) _

theorem lineEnds_le_finishedLines (n : Nat) (text : List Char) :
    lineEnds n text ≤ finishedLines n text := by
  induction n generalizing text with
  | zero => exact Nat.le_refl 0
  | succ n ih =>
    cases text with
    | nil => simp
    | cons c rest =>
      have below := ih rest
      have last : endsLine c rest = true → Machine.lastOfLine c rest = true := by
        intro ends
        simp [Machine.lastOfLine, ends]
      rw [lineEnds_cons, finishedLines_cons]
      split
      next ends => rw [if_pos (last ends)]; omega
      next => omega

/-! ### Where lines start -/

theorem lineStartsFrom_above (position : Nat) (text : List Char) :
    ∀ start ∈ lineStartsFrom position text, position < start := by
  induction text generalizing position with
  | nil => simp [lineStartsFrom]
  | cons c rest ih =>
    intro start member
    unfold lineStartsFrom at member
    split at member
    · rcases List.mem_cons.mp member with rfl | later
      · exact Nat.lt_succ_self position
      · exact Nat.lt_of_succ_lt (ih _ start later)
    · exact Nat.lt_of_succ_lt (ih _ start member)

theorem lineStartsFrom_pairwise (position : Nat) (text : List Char) :
    (lineStartsFrom position text).Pairwise (· < ·) := by
  induction text generalizing position with
  | nil => simp [lineStartsFrom]
  | cons c rest ih =>
    unfold lineStartsFrom
    split
    · exact List.pairwise_cons.mpr ⟨lineStartsFrom_above _ rest, ih _⟩
    · exact ih _

theorem lineStarts_pairwise (text : List Char) : (lineStarts text).Pairwise (· < ·) :=
  List.pairwise_cons.mpr ⟨lineStartsFrom_above 0 text, lineStartsFrom_pairwise 0 text⟩

/-- A line starts behind a character exactly when a line break ends with it. -/
theorem mem_lineStartsFrom_iff {position start : Nat} {text : List Char} :
    start ∈ lineStartsFrom position text ↔
      ∃ before c rest, text = before ++ c :: rest ∧ start = position + before.length + 1 ∧
        endsLine c rest = true := by
  induction text generalizing position with
  | nil => simp [lineStartsFrom]
  | cons d text ih =>
    have inner : start ∈ lineStartsFrom (position + 1) text ↔
        ∃ before c rest, d :: text = (d :: before) ++ c :: rest ∧
          start = position + (d :: before).length + 1 ∧ endsLine c rest = true := by
      simp only [ih, List.cons_append, List.cons.injEq, true_and, List.length_cons,
        Nat.add_comm, Nat.add_left_comm]
    constructor
    · intro member
      unfold lineStartsFrom at member
      split at member
      next ends =>
        rcases List.mem_cons.mp member with rfl | later
        · exact ⟨[], d, text, rfl, rfl, ends⟩
        · obtain ⟨before, c, rest, cut⟩ := inner.mp later
          exact ⟨d :: before, c, rest, cut⟩
      next =>
        obtain ⟨before, c, rest, cut⟩ := inner.mp member
        exact ⟨d :: before, c, rest, cut⟩
    · rintro ⟨before, c, rest, cut, rfl, ends⟩
      unfold lineStartsFrom
      cases before with
      | nil =>
        obtain ⟨rfl, rfl⟩ := List.cons.inj cut
        rw [if_pos ends]
        exact List.mem_cons_self
      | cons e before =>
        obtain ⟨rfl, rfl⟩ := List.cons.inj cut
        have later := inner.mpr ⟨before, c, rest, rfl, rfl, ends⟩
        split
        · exact List.mem_cons_of_mem _ later
        · exact later

/-- Where a line starts: at the front of the text, or behind a character that ends a line. -/
theorem mem_lineStarts_iff {start : Nat} {text : List Char} :
    start ∈ lineStarts text ↔ start = 0 ∨
      ∃ before c rest, text = before ++ c :: rest ∧ start = before.length + 1 ∧
        endsLine c rest = true := by
  simp only [lineStarts, List.mem_cons, mem_lineStartsFrom_iff, Nat.zero_add]

theorem le_length_of_mem_lineStarts {start : Nat} {text : List Char}
    (member : start ∈ lineStarts text) : start ≤ text.length := by
  rcases mem_lineStarts_iff.mp member with rfl | ⟨before, c, rest, rfl, rfl, -⟩
  · exact Nat.zero_le _
  · simp only [List.length_append, List.length_cons]
    omega

/-! ### The line that holds a position -/

theorem countP_lineStartsFrom (position n : Nat) (text : List Char) :
    (lineStartsFrom position text).countP
        (fun start : Nat => (start : Int) ≤ (position + n : Nat)) = lineEnds n text := by
  induction text generalizing position n with
  | nil => simp [lineStartsFrom]
  | cons c rest ih =>
    cases n with
    | zero =>
      -- All line starts lie behind the position.
      have none : ∀ start ∈ lineStartsFrom position (c :: rest),
          ¬decide ((start : Int) ≤ (position + 0 : Nat)) = true := by
        intro start member
        have above := lineStartsFrom_above _ _ start member
        simp only [decide_eq_true_eq]
        omega
      exact List.countP_eq_zero.mpr none
    | succ n =>
      have shifted := ih (position + 1) n
      rw [Nat.add_assoc, Nat.add_comm 1 n] at shifted
      rw [lineEnds_cons]
      unfold lineStartsFrom
      split
      next ends =>
        have first : ((position + 1 : Nat) : Int) ≤ (position + (n + 1) : Nat) := by omega
        rw [List.countP_cons, shifted, if_pos (decide_eq_true first)]
      next => rw [shifted, Nat.add_zero]

/-- A position lies in the line whose number is the count of line breaks before it. -/
theorem lineOf_lineStarts (position : Nat) (text : List Char) :
    lineOf (lineStarts text) position = lineEnds position text := by
  have count := countP_lineStartsFrom 0 position text
  rw [Nat.zero_add] at count
  unfold lineOf lineStarts
  rw [List.countP_cons, count, if_pos (decide_eq_true (by omega))]
  omega

/-- In an increasing list, a condition that holds of everything below what it holds of picks out
as many items from the front as it counts. -/
theorem lt_countP_iff {p : Nat → Bool} (down : ∀ a b, a < b → p b = true → p a = true)
    {items : List Nat} (sorted : items.Pairwise (· < ·)) {i item : Nat}
    (found : items[i]? = some item) : i < items.countP p ↔ p item = true := by
  induction items generalizing i with
  | nil => simp at found
  | cons first rest ih =>
    obtain ⟨above, sorted⟩ := List.pairwise_cons.mp sorted
    by_cases holds : p first = true
    · rw [List.countP_cons_of_pos holds]
      cases i with
      | zero => simp_all
      | succ i => simpa using ih sorted found
    · have none : rest.countP p = 0 := List.countP_eq_zero.mpr fun item member counted =>
        holds (down _ _ (above item member) counted)
      rw [List.countP_cons_of_neg holds, none]
      cases i with
      | zero => simp_all
      | succ i =>
        have member := List.mem_of_getElem? (by simpa using found)
        exact iff_of_false (by omega) fun counted => holds (down _ _ (above item member) counted)

theorem countP_lineStarts (position : Nat) (text : List Char) :
    (lineStarts text).countP (· ≤ position) = lineEnds position text + 1 := by
  have count := lineOf_lineStarts position text
  simp only [lineOf, Int.ofNat_le] at count
  omega

theorem le_lineEnds_iff {position i start : Nat} {text : List Char}
    (found : (lineStarts text)[i]? = some start) :
    i ≤ lineEnds position text ↔ start ≤ position := by
  have down : ∀ a b : Nat, a < b → decide (b ≤ position) = true → decide (a ≤ position) = true := by
    simp only [decide_eq_true_eq]
    omega
  have counted := lt_countP_iff down (lineStarts_pairwise text) found
  rw [countP_lineStarts, decide_eq_true_eq] at counted
  omega

theorem lineEnds_lt_length (position : Nat) (text : List Char) :
    lineEnds position text < (lineStarts text).length := by
  have bound := List.countP_le_length (p := fun a => decide (a ≤ position)) (l := lineStarts text)
  rw [countP_lineStarts] at bound
  exact bound

theorem lineStart_natCast (text : List Char) (line : Nat) :
    lineStart (lineStarts text) text.length line =
      (lineStarts text)[line]?.getD text.length := by
  rw [lineStart, if_neg (Int.not_lt.mpr (Int.natCast_nonneg _)), Int.toNat_natCast]

theorem lineStart_le_length (text : List Char) (line : Int) :
    lineStart (lineStarts text) text.length line ≤ text.length := by
  unfold lineStart
  split
  next => exact Nat.zero_le _
  next =>
    cases found : (lineStarts text)[line.toNat]? with
    | none => exact Nat.le_refl _
    | some start => exact le_length_of_mem_lineStarts (List.mem_of_getElem? found)

theorem length_lineStarts (text : List Char) :
    (lineStarts text).length = lineEnds text.length text + 1 := by
  rw [← countP_lineStarts, List.countP_eq_length.mpr]
  intro start member
  exact decide_eq_true (le_length_of_mem_lineStarts member)

/-- Texts that share their front have as many line breaks there, but for one whose second half
only one of them has. -/
theorem lineEnds_le_of_take_eq {n : Nat} {text text' : List Char}
    (shared : text.take n = text'.take n) : lineEnds n text' ≤ lineEnds n text + 1 := by
  induction n generalizing text text' with
  | zero => exact Nat.zero_le _
  | succ n ih =>
    cases text with
    | nil =>
      cases text' with
      | nil => simp
      | cons c' rest' => simp at shared
    | cons c rest =>
      cases text' with
      | nil => simp
      | cons c' rest' =>
        obtain ⟨rfl, behind⟩ := List.cons.inj shared
        -- Only the last character of the front may end a line in one text and not in the other.
        cases n with
        | zero =>
          simp only [lineEnds_cons]
          split <;> split <;> simp [lineEnds, countAhead]
        | succ n =>
          have next : rest.head? = rest'.head? := by
            cases rest <;> cases rest' <;> simp_all
          have same : endsLine c rest' = endsLine c rest := by simp only [endsLine, next]
          have below := ih behind
          rw [lineEnds_cons, lineEnds_cons, same]
          omega

/-- Texts that share one character more have as many line breaks in the front before it. -/
theorem lineEnds_eq_of_take_eq {n : Nat} {text text' : List Char}
    (shared : text.take (n + 1) = text'.take (n + 1)) : lineEnds n text = lineEnds n text' := by
  induction n generalizing text text' with
  | zero => rfl
  | succ n ih =>
    cases text with
    | nil =>
      cases text' with
      | nil => rfl
      | cons c' rest' => simp at shared
    | cons c rest =>
      cases text' with
      | nil => simp at shared
      | cons c' rest' =>
        obtain ⟨rfl, behind⟩ := List.cons.inj shared
        have next : rest.head? = rest'.head? := by
          cases rest <;> cases rest' <;> simp_all
        have same : endsLine c rest' = endsLine c rest := by simp only [endsLine, next]
        rw [lineEnds_cons, lineEnds_cons, same, ih behind]

/-- As many line breaks end before a line as there are lines above it. -/
theorem lineEnds_eq_of_getElem? {i start : Nat} {text : List Char}
    (found : (lineStarts text)[i]? = some start) : lineEnds start text = i := by
  have notBelow := (le_lineEnds_iff found).mpr (Nat.le_refl start)
  have inside := lineEnds_lt_length start text
  have other := List.getElem?_eq_getElem inside
  have below := (le_lineEnds_iff other).mp (Nat.le_refl _)
  -- An earlier line would start before the line of its own start.
  rcases Nat.lt_or_eq_of_le notBelow with less | same
  · have increasing := List.pairwise_iff_getElem.mp (lineStarts_pairwise text) i _
      (List.getElem?_eq_some_iff.mp found).1 inside less
    rw [(List.getElem?_eq_some_iff.mp found).2] at increasing
    omega
  · exact same.symm

theorem getElem?_lineEnds {start : Nat} {text : List Char} (member : start ∈ lineStarts text) :
    (lineStarts text)[lineEnds start text]? = some start := by
  obtain ⟨i, found⟩ := List.mem_iff_getElem?.mp member
  rwa [lineEnds_eq_of_getElem? found]

/-- A line with another one below it has a character. -/
theorem lineStart_lt_succ {i : Nat} {text : List Char} (below : i + 1 < (lineStarts text).length) :
    lineStart (lineStarts text) text.length i <
      lineStart (lineStarts text) text.length (i + 1 : Nat) := by
  have here := List.getElem?_eq_getElem (Nat.lt_of_succ_lt below)
  have next := List.getElem?_eq_getElem below
  rw [lineStart_natCast, lineStart_natCast, here, next, Option.getD_some, Option.getD_some]
  exact List.pairwise_iff_getElem.mp (lineStarts_pairwise text) i (i + 1) _ below
    (Nat.lt_succ_self i)

theorem lineEnds_pos {start : Nat} {text : List Char} (member : start ∈ lineStarts text)
    (positive : 0 < start) : 0 < lineEnds start text := by
  refine Nat.pos_of_ne_zero ?_
  intro first
  have found := getElem?_lineEnds member
  rw [first] at found
  obtain rfl : 0 = start := by simpa [lineStarts] using found
  exact Nat.lt_irrefl 0 positive

/-- The start of the line that holds a position is the last line start up to it. -/
theorem exists_lineStart (position : Nat) (text : List Char) :
    ∃ start ∈ lineStarts text, start ≤ position ∧ lineEnds start text = lineEnds position text ∧
      lineStart (lineStarts text) text.length (lineOf (lineStarts text) position) = start := by
  have inside := lineEnds_lt_length position text
  have found := List.getElem?_eq_getElem inside
  have member := List.getElem_mem inside
  have below := (le_lineEnds_iff found).mp (Nat.le_refl _)
  refine ⟨_, member, below, ?_, ?_⟩
  · exact Nat.le_antisymm (lineEnds_mono below text) ((le_lineEnds_iff found).mpr (Nat.le_refl _))
  · rw [lineOf_lineStarts, lineStart_natCast, found, Option.getD_some]

/-! ### Finished lines -/

/-- Up to the start of a line, every line that is finished is finished by a line break. -/
theorem finishedLines_lineStart {start : Nat} {text : List Char}
    (member : start ∈ lineStarts text) : finishedLines start text = lineEnds start text := by
  rcases mem_lineStarts_iff.mp member with rfl | ⟨before, c, rest, rfl, rfl, ends⟩
  · rfl
  · -- The induction is on the text before the line; only its last character may be the text's last.
    clear member
    induction before with
    | nil => simp [finishedLines, lineEnds, countAhead, Machine.lastOfLine, ends]
    | cons b before ih =>
      have same :
          Machine.lastOfLine b (before ++ c :: rest) = endsLine b (before ++ c :: rest) := by
        simp [Machine.lastOfLine]
      simp only [List.cons_append, List.length_cons] at ih ⊢
      rw [finishedLines_cons, lineEnds_cons, same, ih]

private theorem countP_lt_lineStartsFrom (position : Nat) (text : List Char) :
    (position :: lineStartsFrom position text).countP (· < position + text.length) =
      finishedLines text.length text := by
  induction text generalizing position with
  | nil => simp [lineStartsFrom]
  | cons c rest ih =>
    have shifted := ih (position + 1)
    have length : position + (c :: rest).length = position + 1 + rest.length := by
      simp only [List.length_cons]
      omega
    rw [length, List.countP_cons_of_pos (by simp only [decide_eq_true_eq]; omega)]
    rw [List.length_cons, finishedLines_cons, Machine.lastOfLine, ← shifted]
    rw [lineStartsFrom]
    split
    next ends => simp [ends]
    next goesOn =>
      cases rest with
      | nil => simp [goesOn, lineStartsFrom]
      | cons d rest => simp [goesOn]

theorem countP_lt_lineStarts (text : List Char) :
    (lineStarts text).countP (· < text.length) = finishedLines text.length text := by
  simpa [lineStarts] using countP_lt_lineStartsFrom 0 text

theorem finishedLines_le_length {n : Nat} {text : List Char} (le : n ≤ text.length) :
    finishedLines n text ≤ (lineStarts text).length := by
  have whole := finishedLines_add n (text.length - n) text
  rw [Nat.add_sub_cancel' le, ← countP_lt_lineStarts] at whole
  have bound : (lineStarts text).countP (· < text.length) ≤ (lineStarts text).length :=
    List.countP_le_length
  omega

/-- The lines that end in a piece of text are lines from that on in which the piece starts. -/
theorem lineEnds_add_finishedLines_le {start n : Nat} {text : List Char}
    (fits : start + n ≤ text.length) :
    lineEnds start text + finishedLines n (text.drop start) ≤ (lineStarts text).length := by
  have begun := lineEnds_le_finishedLines start text
  have bound : finishedLines (start + n) text ≤ (lineStarts text).length :=
    finishedLines_le_length fits
  rw [finishedLines_add] at bound
  omega

/-- In the whole text, the lines that start before its end are finished. -/
theorem lt_finishedLines_length_iff {line start : Nat} {text : List Char}
    (found : (lineStarts text)[line]? = some start) :
    line < finishedLines text.length text ↔ start < text.length := by
  have down : ∀ a b : Nat, a < b → decide (b < text.length) = true →
      decide (a < text.length) = true := by
    simp only [decide_eq_true_eq]
    omega
  rw [← countP_lt_lineStarts, lt_countP_iff down (lineStarts_pairwise text) found,
    decide_eq_true_eq]

/-- A line that has a character is finished where the next line starts. -/
theorem lt_finishedLines {n line : Nat} {text : List Char} (le : n ≤ text.length)
    (some : lineStart (lineStarts text) text.length line <
      lineStart (lineStarts text) text.length (line + 1 : Nat))
    (ended : lineStart (lineStarts text) text.length (line + 1 : Nat) ≤ n) :
    line < finishedLines n text := by
  rw [lineStart_natCast, lineStart_natCast] at some
  rw [lineStart_natCast] at ended
  cases next : (lineStarts text)[line + 1]? with
  | some start =>
    rw [next] at ended
    exact Nat.lt_of_lt_of_le ((le_lineEnds_iff next).mpr ended) (lineEnds_le_finishedLines n text)
  | none =>
    rw [next, Option.getD_none] at some ended
    obtain rfl : n = text.length := Nat.le_antisymm le ended
    cases found : (lineStarts text)[line]? with
    | none => simp [found] at some
    | some start =>
      rw [found, Option.getD_some] at some
      exact (lt_finishedLines_length_iff found).mpr some

/-- Before the end of the text, only line breaks end lines. -/
theorem finishedLines_eq_lineEnds {n : Nat} {text : List Char} (inside : n < text.length) :
    finishedLines n text = lineEnds n text := by
  induction n generalizing text with
  | zero => rfl
  | succ n ih =>
    cases text with
    | nil => rfl
    | cons c rest =>
      have inside := Nat.lt_of_succ_lt_succ inside
      have more : rest.isEmpty = false :=
        List.isEmpty_eq_false_iff.mpr (List.ne_nil_of_length_pos (Nat.zero_lt_of_lt inside))
      have same : Machine.lastOfLine c rest = endsLine c rest := by
        rw [Machine.lastOfLine, more, Bool.or_false]
      rw [finishedLines_cons, lineEnds_cons, ih inside, same]

/-- The lines that are finished within a piece of text are those with a character whose next line
starts within it; behind the last line the text ends. -/
theorem lt_finishedLines_iff {n line : Nat} {text : List Char} (le : n ≤ text.length) :
    line < finishedLines n text ↔
      lineStart (lineStarts text) text.length line <
          lineStart (lineStarts text) text.length (line + 1 : Nat) ∧
        lineStart (lineStarts text) text.length (line + 1 : Nat) ≤ n := by
  refine ⟨fun finished => ?_, fun ended => lt_finishedLines le ended.1 ended.2⟩
  have inside : line < (lineStarts text).length :=
    Nat.lt_of_lt_of_le finished (finishedLines_le_length le)
  cases next : (lineStarts text)[line + 1]? with
  | some start =>
    have below := (List.getElem?_eq_some_iff.mp next).1
    refine ⟨lineStart_lt_succ below, ?_⟩
    rw [lineStart_natCast, next, Option.getD_some]
    refine (le_lineEnds_iff next).mp ?_
    rcases Nat.lt_or_eq_of_le le with less | rfl
    · rwa [finishedLines_eq_lineEnds less] at finished
    · rw [length_lineStarts] at below
      omega
  | none =>
    -- Behind the last line there is the end of the text, which must be reached.
    have last := List.getElem?_eq_none_iff.mp next
    have reached : n = text.length := by
      refine Nat.le_antisymm le (Nat.le_of_not_lt ?_)
      intro less
      have bound := lineEnds_lt_length n text
      rw [finishedLines_eq_lineEnds less] at finished
      omega
    subst reached
    have found := List.getElem?_eq_getElem inside
    rw [lineStart_natCast, lineStart_natCast, next, found, Option.getD_some, Option.getD_none]
    exact ⟨(lt_finishedLines_length_iff found).mp finished, Nat.le_refl _⟩

/-- A position lies behind the start of its line and, in the text, before the start of the next. -/
theorem lineStart_lineEnds_le (position : Nat) (text : List Char) :
    lineStart (lineStarts text) text.length (lineEnds position text) ≤ position := by
  obtain ⟨start, -, below, -, found⟩ := exists_lineStart position text
  rw [lineOf_lineStarts] at found
  rwa [found]

theorem lt_lineStart_lineEnds_succ {position : Nat} {text : List Char}
    (inside : position < text.length) :
    position < lineStart (lineStarts text) text.length (lineEnds position text + 1 : Nat) := by
  rw [lineStart_natCast]
  cases next : (lineStarts text)[lineEnds position text + 1]? with
  | none => exact inside
  | some start =>
    refine Nat.lt_of_not_le ?_
    intro le
    exact Nat.not_succ_le_self _ ((le_lineEnds_iff next).mpr le)

/-- The line of a position in the text is finished where the text ends. -/
theorem lineEnds_lt_finishedLines {position : Nat} {text : List Char}
    (inside : position < text.length) :
    lineEnds position text < finishedLines text.length text :=
  lt_finishedLines (Nat.le_refl _)
    (Nat.lt_of_le_of_lt (lineStart_lineEnds_le position text) (lt_lineStart_lineEnds_succ inside))
    (lineStart_le_length text _)

/-! ### The lines of a document -/

namespace Document

variable {d : Document} {line : Nat}

theorem lineAt_eq (d : Document) (position : Nat) :
    d.lineAt position = lineEnds position d.text :=
  lineOf_lineStarts position d.text

theorem startOf_lineAt (d : Document) {start : Nat} (member : start ∈ lineStarts d.text) :
    d.startOf (d.lineAt start) = start := by
  rw [lineAt_eq, startOf, lineStart, if_neg (Int.not_lt.mpr (Int.natCast_nonneg _)),
    Int.toNat_natCast, getElem?_lineEnds member, Option.getD_some]

theorem lineCount_eq (d : Document) : d.lineCount = lineEnds d.text.length d.text + 1 :=
  length_lineStarts d.text

/-- A line starts where it is found again. -/
theorem startOf_line (below : line < d.lineCount) :
    d.startOf line ∈ lineStarts d.text ∧ lineEnds (d.startOf line) d.text = line := by
  have found := List.getElem?_eq_getElem below
  have same : d.startOf line = (lineStarts d.text)[line] := by
    simp only [startOf, lineStart, Int.not_lt.mpr (Int.natCast_nonneg _), if_false,
      Int.toNat_natCast, found, Option.getD_some]
  rw [same]
  exact ⟨List.getElem_mem below, lineEnds_eq_of_getElem? found⟩

/-- Behind the last line the text ends. -/
theorem startOf_end (last : d.lineCount ≤ line) : d.startOf line = d.text.length := by
  have absent : (lineStarts d.text)[line]? = none := List.getElem?_eq_none last
  simp only [startOf, lineStart, Int.not_lt.mpr (Int.natCast_nonneg _), if_false,
    Int.toNat_natCast, absent, Option.getD_none, length]

end Document

end CssHighlight
