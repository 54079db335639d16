import CssHighlight.Proofs.LongestMatch
import CssHighlight.Proofs.Runs

/-!
# How far numbers go

A number is the longest numeral, or the longest colour, that the text goes on with. A name directly
behind it is its unit and makes a dimension of it; a percent sign belongs to it as well. The rule of
the scan looks at a character and its neighbours only, and so takes the numeral part by part.
-/
namespace CssHighlight

open Computability

/-! ### Numerals and colours -/

def isExponent (c : Char) : Bool :=
  c == 'e' || c == 'E'

def isSign (c : Char) : Bool :=
  c == '+' || c == '-'

/-- A digit, alone or behind a point. -/
def leadingDigit : Language Char :=
  oneOf isDigit + oneOf (· == '.') * oneOf isDigit

/-- What a numeral may go on with: a digit, alone or behind a point, or behind an exponent's letter
and perhaps its sign. -/
def numeralPart : Language Char :=
  leadingDigit + oneOf isExponent * oneOf isDigit + oneOf isExponent * oneOf isSign * oneOf isDigit

def numeral : Language Char :=
  leadingDigit * numeralPart∗

/-- A hash with characters of names behind it. -/
def colour : Language Char :=
  oneOf (· == '#') * (oneOf isNameChar)∗

/-- The parts of a numeral, character by character. -/
inductive NumeralPart : List Char → Prop
  | digit {d : Char} (digit : isDigit d = true) : NumeralPart [d]
  | fraction {d : Char} (digit : isDigit d = true) : NumeralPart ['.', d]
  | exponent {e d : Char} (letter : isExponent e = true) (digit : isDigit d = true) :
      NumeralPart [e, d]
  | signed {e s d : Char} (letter : isExponent e = true) (sign : isSign s = true)
      (digit : isDigit d = true) : NumeralPart [e, s, d]

theorem mem_leadingDigit {w : List Char} : w ∈ leadingDigit ↔
    ∃ d, isDigit d = true ∧ (w = [d] ∨ w = ['.', d]) := by
  simp only [leadingDigit, Language.mem_add, mem_oneOf_mul, mem_oneOf, beq_iff_eq]
  constructor
  · rintro (⟨d, digit, rfl⟩ | ⟨_, rfl, _, ⟨d, digit, rfl⟩, rfl⟩)
    · exact ⟨d, digit, .inl rfl⟩
    · exact ⟨d, digit, .inr rfl⟩
  · rintro ⟨d, digit, rfl | rfl⟩
    · exact .inl ⟨d, digit, rfl⟩
    · exact .inr ⟨'.', rfl, [d], ⟨d, digit, rfl⟩, rfl⟩

theorem mem_numeralPart {w : List Char} : w ∈ numeralPart ↔ NumeralPart w := by
  simp only [numeralPart, Language.mem_add, mul_assoc, mem_leadingDigit, mem_oneOf_mul, mem_oneOf]
  constructor
  · rintro ((⟨d, digit, rfl | rfl⟩ | ⟨e, letter, _, ⟨d, digit, rfl⟩, rfl⟩) |
      ⟨e, letter, _, ⟨s, sign, _, ⟨d, digit, rfl⟩, rfl⟩, rfl⟩)
    · exact .digit digit
    · exact .fraction digit
    · exact .exponent letter digit
    · exact .signed letter sign digit
  · rintro (digit | digit | ⟨letter, digit⟩ | ⟨letter, sign, digit⟩)
    · exact .inl (.inl ⟨_, digit, .inl rfl⟩)
    · exact .inl (.inl ⟨_, digit, .inr rfl⟩)
    · exact .inl (.inr ⟨_, letter, _, ⟨_, digit, rfl⟩, rfl⟩)
    · exact .inr ⟨_, letter, _, ⟨_, sign, _, ⟨_, digit, rfl⟩, rfl⟩, rfl⟩

theorem exponent_cases {c : Char} (letter : isExponent c = true) : c = 'e' ∨ c = 'E' := by
  simpa [isExponent] using letter

theorem sign_cases {c : Char} (sign : isSign c = true) : c = '+' ∨ c = '-' := by
  simpa [isSign] using sign

/-- A digit begins no other part of a numeral. -/
theorem unlike_of_isDigit {c : Char} (digit : isDigit c = true) :
    c ≠ '.' ∧ isExponent c = false ∧ isSign c = false := by
  refine ⟨?_, Bool.eq_false_iff.mpr fun letter => ?_, Bool.eq_false_iff.mpr fun sign => ?_⟩
  · rintro rfl
    cases digit
  · rcases exponent_cases letter with rfl | rfl <;> cases digit
  · rcases sign_cases sign with rfl | rfl <;> cases digit

/-- A part tells by its first two characters how long it is. -/
theorem prefixCode_numeralPart : PrefixCode numeralPart := by
  intro a ha b hb begins
  rw [mem_numeralPart] at ha hb
  have digit {c : Char} (digit : isDigit c = true) := unlike_of_isDigit digit
  have point : isExponent '.' = false := rfl
  cases ha <;> cases hb <;> simp only [List.cons_prefix_cons, List.prefix_nil] at begins <;> grind

namespace Machine

variable {o : ScanOptions} {c : Char} {rest text : List Char} {start p : Nat} {kind : Style}

theorem look_number {m : Machine} (number : m.style = .number) : m.look o c rest =
    if m.continuesNumber c rest then m
    else if startsName c rest.head? then m.restyle .dimension
    else if c = '%' then m.thenStart .default
    else m.leave o c rest := by
  simp [look, stepRun, number]

theorem InRun.number_step (h : InRun o text start p .number 0 none)
    (ahead : text.drop p = c :: rest)
    (goesOn : (scanned o p text).continuesNumber c rest = true) :
    InRun o text start (p + 1) .number 0 none :=
  h.stays ahead (by rw [look_number h.style, if_pos goesOn])

/-! ### Numerals -/

/-- The scan has come to a position behind a part of a numeral. -/
structure BehindPart (o : ScanOptions) (text : List Char) (start p : Nat) : Prop
    extends InRun o text start p .number 0 none where
  plain : (text.drop start).head? ≠ some '#'
  digit : (scanned o p text).previous.any isDigit = true

/-- A digit goes on a numeral, wherever it stands. -/
theorem InRun.digit (h : InRun o text start p .number 0 none)
    (plain : (text.drop start).head? ≠ some '#') (ahead : text.drop p = c :: rest)
    (digit : isDigit c = true) : BehindPart o text start (p + 1) := by
  have goesOn : (scanned o p text).continuesNumber c rest = true := by
    rw [continuesNumber, h.runText, if_neg plain, if_pos digit]
  have step := h.number_step ahead goesOn
  exact { step with plain := plain, digit := by rw [(taken_scanned ahead).1]; exact digit }

/-- Behind a digit the rule of the scan asks for a whole part. -/
theorem exists_part_of_continuesNumber {m : Machine} (plain : m.runText.head? ≠ some '#')
    (behind : m.previous.any isDigit = true) (goesOn : m.continuesNumber c rest = true) :
    ∃ part, NumeralPart part ∧ part <+: c :: rest := by
  rw [continuesNumber, if_neg plain] at goesOn
  split at goesOn
  next digit => exact ⟨[c], .digit digit, by simp⟩
  split at goesOn
  next point =>
    obtain ⟨d, tail, rfl, digit⟩ := head?_any_iff.mp (Bool.and_eq_true_iff.mp goesOn).2
    exact ⟨['.', d], .fraction digit, by simp [point]⟩
  split at goesOn
  next letter =>
    have letter : isExponent c = true := by simpa [isExponent] using letter
    rcases Bool.or_eq_true_iff.mp goesOn with next | next
    · obtain ⟨d, tail, rfl, digit⟩ := head?_any_iff.mp next
      exact ⟨[c, d], .exponent letter digit, by simp⟩
    · obtain ⟨next, third⟩ := Bool.and_eq_true_iff.mp next
      obtain ⟨d, tail, tail_eq, digit⟩ := head?_any_iff.mp third
      obtain ⟨s, rfl, sign⟩ : ∃ s, rest = s :: d :: tail ∧ isSign s = true := by
        cases rest with
        | nil => cases tail_eq
        | cons s rest => exact ⟨s, by rw [← tail_eq, List.tail_cons], by simpa [isSign] using next⟩
      exact ⟨[c, s, d], .signed letter sign digit, by simp⟩
  split at goesOn
  next =>
    -- A sign goes on a number only behind an exponent's letter.
    obtain ⟨d, previous, digit⟩ := (Option.any_eq_true _ _).mp behind
    have letter : isExponent d = true := by
      simpa [previous, isExponent] using (Bool.and_eq_true_iff.mp goesOn).1
    rw [(unlike_of_isDigit digit).2.1] at letter
    cases letter
  next => cases goesOn

/-- Behind a digit the rule of the scan takes the first character of a part. -/
theorem continuesNumber_of_part {m : Machine} (plain : m.runText.head? ≠ some '#')
    (behind : m.previous.any isDigit = true) {part tail : List Char} (known : NumeralPart part)
    (ahead : c :: rest = part ++ tail) : m.continuesNumber c rest = true := by
  obtain ⟨last, previous, digit'⟩ := (Option.any_eq_true _ _).mp behind
  have noPoint := (unlike_of_isDigit digit').1
  rw [continuesNumber, if_neg plain, previous]
  cases known with
  | digit digit =>
    cases ahead
    rw [if_pos digit]
  | fraction digit =>
    cases ahead
    simp [noPoint, digit]
  | exponent letter digit =>
    cases ahead
    rcases exponent_cases letter with rfl | rfl <;> simp [digit]
  | signed letter sign digit =>
    cases ahead
    rcases exponent_cases letter with rfl | rfl <;> rcases sign_cases sign with rfl | rfl <;>
      simp [digit]

/-- The sign of an exponent is taken behind its letter. -/
theorem continuesNumber_sign {m : Machine} (plain : m.runText.head? ≠ some '#')
    (behind : m.previous.any isExponent = true) (sign : isSign c = true)
    (next : rest.head?.any isDigit = true) : m.continuesNumber c rest = true := by
  obtain ⟨e, previous, letter⟩ := (Option.any_eq_true _ _).mp behind
  rw [continuesNumber, if_neg plain, previous]
  rcases exponent_cases letter with rfl | rfl <;> rcases sign_cases sign with rfl | rfl <;>
    simp [next]

/-- The whole part that the text goes on with is taken. -/
theorem BehindPart.part (h : BehindPart o text start p) {part behind : List Char}
    (known : NumeralPart part) (ahead : text.drop p = part ++ behind) :
    BehindPart o text start (p + part.length) := by
  have plain := h.plain
  have first {c : Char} {rest : List Char} (same : c :: rest = part ++ behind) :
      InRun o text start (p + 1) .number 0 none :=
    h.number_step (ahead.trans same.symm)
      (continuesNumber_of_part (h.runText ▸ plain) h.digit known same)
  cases known with
  | digit digit => exact h.toInRun.digit plain ahead digit
  | fraction digit | exponent _ digit =>
    exact (first rfl).digit plain (drop_succ_of_drop ahead) digit
  | signed letter sign digit =>
    have exponent := first rfl
    have behindSign := exponent.number_step (drop_succ_of_drop ahead)
      (continuesNumber_sign (exponent.runText ▸ plain)
        (by rw [(taken_scanned ahead).1]; exact letter) sign digit)
    exact behindSign.digit plain (drop_succ_of_drop (drop_succ_of_drop ahead)) digit

/-- The scan has come to the end of a numeral or a colour. -/
structure BehindNumber (o : ScanOptions) (text : List Char) (start p : Nat) : Prop
    extends InRun o text start p .number 0 none where
  stops : ∀ c rest, text.drop p = c :: rest → (scanned o p text).continuesNumber c rest = false

/-- Behind one part of a numeral all further parts are taken. -/
theorem BehindPart.parts {p : Nat} (h : BehindPart o text start p) :
    ∃ n, LongestMatch numeralPart∗ (text.drop p) n ∧ BehindNumber o text start (p + n) := by
  -- One part and then, with less text ahead, the parts behind it.
  by_cases more : ∃ part, NumeralPart part ∧ part <+: text.drop p
  · obtain ⟨part, known, behind, ahead⟩ := more
    have taken := h.part known ahead.symm
    have rest : text.drop (p + part.length) = behind := by
      rw [← List.drop_drop, ← ahead, List.drop_left]
    have further : p < p + part.length ∧ p + part.length ≤ text.length :=
      ⟨by cases known <;> simp, taken.le⟩
    obtain ⟨n, longest, stops⟩ := taken.parts
    rw [rest] at longest
    rw [Nat.add_assoc] at stops
    exact ⟨part.length + n,
      ahead ▸ longest.star prefixCode_numeralPart (mem_numeralPart.mpr known), stops⟩
  · refine ⟨0, .stop fun part known begins => more ⟨part, mem_numeralPart.mp known, begins⟩,
      h.toInRun, fun c rest ahead => Bool.eq_false_iff.mpr fun goesOn => more ?_⟩
    rw [show text.drop p = c :: rest from ahead]
    exact exists_part_of_continuesNumber (h.runText ▸ h.plain) h.digit goesOn
termination_by text.length - p

/-! ### Beginnings -/

/-- A number begins with a digit, with a point in front of one, or with a hash. -/
theorem BeginsRun.number (h : BeginsRun o text start c rest .number) :
    (startsNumber c rest.head? = true ∨ c = '#') ∧
      InRun o text start (start + 1) .number 0 none := by
  obtain ⟨k, held, after, starts⟩ := h.started rfl nofun
  obtain ⟨looked, first⟩ := starts.number_of_style h.style
  exact ⟨first, h.first held after looked⟩

/-- A numeral goes as far as the text goes on with one. -/
theorem BeginsRun.numeral (h : BeginsRun o text start c rest .number) (plain : c ≠ '#') :
    ∃ n, LongestMatch numeral (c :: rest) n ∧ BehindNumber o text start (start + n) := by
  obtain ⟨first, run⟩ := h.number
  have plain' : (text.drop start).head? ≠ some '#' := by
    rw [h.ahead]
    simpa using plain
  -- The first digit may stand behind a point.
  have begins : ∃ a behind, a ∈ leadingDigit ∧ c :: rest = a ++ behind ∧
      BehindPart o text start (start + a.length) := by
    rcases first with first | hash
    · rw [startsNumber, Bool.or_eq_true, Bool.and_eq_true, beq_iff_eq] at first
      rcases first with digit | ⟨point, next⟩
      · have part : BehindPart o text start (start + 1) :=
          { run with plain := plain', digit := by rw [(taken_scanned h.ahead).1]; exact digit }
        exact ⟨[c], rest, mem_leadingDigit.mpr ⟨c, digit, .inl rfl⟩, rfl, part⟩
      · obtain ⟨d, behind, rfl, digit⟩ := head?_any_iff.mp next
        exact ⟨['.', d], behind, mem_leadingDigit.mpr ⟨d, digit, .inr rfl⟩, by rw [point]; rfl,
          run.digit plain' (drop_succ_of_drop h.ahead) digit⟩
    · exact absurd hash plain
  obtain ⟨a, behind, leading, same, part⟩ := begins
  obtain ⟨n, longest, stops⟩ := part.parts
  rw [← List.drop_drop, h.ahead, same, List.drop_left] at longest
  -- What may lead a numeral may also go it on, so the first part is a prefix code as well.
  have code : PrefixCode leadingDigit :=
    prefixCode_numeralPart.mono fun w digit => .inl (.inl digit)
  rw [Nat.add_assoc] at stops
  exact ⟨a.length + n, same ▸ longest.mul code leading, stops⟩

/-- A colour goes as far as the characters of names go. -/
theorem BeginsRun.colour (h : BeginsRun o text start '#' rest .number) :
    ∃ n, LongestMatch colour ('#' :: rest) n ∧ BehindNumber o text start (start + n) := by
  have hash : (text.drop start).head? = some '#' := by rw [h.ahead]; rfl
  have continues {p : Nat} (run : InRun o text start p .number 0 none) (c : Char)
      (rest : List Char) : (scanned o p text).continuesNumber c rest = isNameChar c := by
    rw [continuesNumber, run.runText, if_pos hash]
  obtain ⟨run, ends⟩ := h.number.2.while fun run ahead name =>
    run.number_step ahead ((continues run _ _).trans name)
  rw [drop_succ_of_drop h.ahead, Nat.add_assoc] at run ends
  refine ⟨1 + (rest.takeWhile isNameChar).length, ?_, run, fun c tail ahead => ?_⟩
  · exact (longestMatch_takeWhile isNameChar rest).mul (prefixCode_oneOf _)
      (singleton_mem_oneOf rfl)
  · exact (continues run c tail).trans (ends c tail ahead)

/-! ### Units and percent signs -/

/-- Whether a text begins with a name. -/
def beginsName : List Char → Bool
  | [] => false
  | c :: rest => startsName c rest.head?

theorem isRunChar_of_startsName {next : Option Char} (starts : startsName c next = true) :
    isRunChar c = true := by
  simp only [startsName, Bool.or_eq_true, Bool.and_eq_true, beq_iff_eq] at starts
  rcases starts with first | ⟨rfl, -⟩
  · simp [isRunChar, isNameChar, first]
  · rfl

theorem look_dimension {m : Machine} (dimension : m.style = .dimension) :
    m.look o c rest = if isRunChar c then m else m.leaveRun o c rest := by
  simp [look, stepRun, dimension, closeRun, isClassified]

/-- The style of a run is remembered already when its last character is not to be looked back
over. -/
theorem InRun.lastStyle (h : InRun o text start p kind 0 none) (solid : kind.isSpace = false) :
    (scanned o p text).context.lastStyle = kind := by
  have behind := (steady_scanned o p text).behind
  have length := h.unbroken p h.lt (Nat.lt_succ_self p)
  have lt := h.lt
  have le := h.le
  obtain ⟨k, count⟩ : ∃ k, (scanned o p text).runLength = k + 1 :=
    Nat.exists_eq_succ_of_ne_zero (by omega)
  obtain ⟨c, seen, same⟩ : ∃ c seen, (text.take p).reverse = c :: seen := by
    refine List.exists_cons_of_length_pos ?_
    rw [List.length_reverse, List.length_take]
    omega
  rw [same, latest, count, List.replicate_succ, List.cons_append, h.style,
    lookBehind_solid solid] at behind
  exact (congrArg Prod.snd behind).symm

theorem leaveRun_eq_leave {m : Machine} (same : m.context.lastStyle = m.style) :
    m.leaveRun o c rest = m.leave o c rest := by
  rw [leaveRun, ← same]
  rfl

/-- A number becomes a dimension with a name behind it, and holds all of the name. -/
theorem BehindNumber.dimension (h : BehindNumber o text start p)
    (name : beginsName (text.drop p) = true) :
    InRun o text start (p + ((text.drop p).takeWhile isRunChar).length) .dimension 0 none ∧
      LooksForToken o text (p + ((text.drop p).takeWhile isRunChar).length) := by
  rcases ahead : text.drop p with _ | ⟨c, rest⟩
  · rw [ahead] at name
    cases name
  rw [ahead, beginsName] at name
  have looked := @look_number o c rest _ h.style
  rw [h.stops c rest ahead, if_neg Bool.false_ne_true, if_pos name] at looked
  have first : InRun o text start (p + 1) .dimension 0 none :=
    (h.looked ahead looked rfl h.held h.after rfl rfl).goesOn fun _ => rfl
  -- The first character of the name restyles the run, and the others find it restyled.
  obtain ⟨run, ends⟩ := first.while fun {p c rest} run ahead (inside : isRunChar c = true) =>
    run.stays ahead (by rw [look_dimension run.style, if_pos inside])
  rw [drop_succ_of_drop ahead, Nat.add_right_comm] at run ends
  rw [List.takeWhile_cons_of_pos (isRunChar_of_startsName name), List.length_cons]
  refine ⟨run, ?_⟩
  rw [← Nat.add_assoc]
  rcases more : text.drop (p + (rest.takeWhile isRunChar).length + 1) with _ | ⟨c', rest'⟩
  · exact looksForToken_end more
  · refine looksForToken_leave more run.held ?_
    rw [look_dimension run.style, ends c' rest' more, if_neg Bool.false_ne_true]
    exact leaveRun_eq_leave ((run.lastStyle rfl).trans run.style.symm)

/-- Without a name behind it a number ends, or ends behind a percent sign. -/
theorem BehindNumber.plain (h : BehindNumber o text start p)
    (plain : beginsName (text.drop p) = false) :
    if (text.drop p).head? = some '%' then BehindRun o text start (p + 1) .number
    else LooksForToken o text p := by
  rcases ahead : text.drop p with _ | ⟨c, rest⟩
  · exact looksForToken_end ahead
  rw [ahead, beginsName] at plain
  have looked := @look_number o c rest _ h.style
  rw [h.stops c rest ahead, plain, if_neg Bool.false_ne_true, if_neg Bool.false_ne_true] at looked
  split
  next percent =>
    rw [if_pos (Option.some.inj percent)] at looked
    exact (h.looked ahead looked h.style h.held rfl rfl rfl).ends
  next other =>
    rw [if_neg fun percent => other (congrArg some percent)] at looked
    exact looksForToken_leave ahead h.held looked

end Machine

namespace Document

open Machine

variable {p : Place} {s : ScanSetup} {o : ScanOptions}

/-- A number of a scanned text. -/
theorem ScannedTo.number {d : Document} (full : d.ScannedTo o d.text.length) {i : Nat} {c : Char}
    {rest : List Char} (h : BeginsRun o d.text i c rest .number) :
    ∃ n, LongestMatch (if c = '#' then colour else numeral) (c :: rest) n ∧
      if beginsName (d.text.drop (i + n)) then
        d.ScannedRun o i (i + n + ((d.text.drop (i + n)).takeWhile isRunChar).length) .dimension
      else if (d.text.drop (i + n)).head? = some '%' then d.ScannedRun o i (i + n + 1) .number
      else d.ScannedRun o i (i + n) .number := by
  obtain ⟨n, longest, number⟩ : ∃ n,
      LongestMatch (if c = '#' then colour else numeral) (c :: rest) n ∧
        BehindNumber o d.text i (i + n) := by
    split
    next hash =>
      subst hash
      exact h.colour
    next plain => exact h.numeral plain
  refine ⟨n, longest, ?_⟩
  split
  next name =>
    obtain ⟨run, token⟩ := number.dimension name
    exact full.run_ahead run token
  next noName =>
    have plain := number.plain (Bool.eq_false_iff.mpr noName)
    split at plain
    next percent =>
      rw [if_pos percent]
      exact full.run_behind plain
    next other =>
      rw [if_neg other]
      exact full.run_ahead number.toInRun plain

/-- Each number that the scan starts is the longest numeral that the text goes on with, or the
longest colour when a hash begins it. A name directly behind makes a dimension of it, which holds
the name; else it ends there, or behind a percent sign. -/
theorem scanAll_numbers (options : s.options p = .ok o) (text : List Char) :
    ∃ d r, (ofChars text).scanAll p s = .ok (d, r) ∧ d.text = text ∧
      ∀ i c rest, BeginsRun o text i c rest .number →
        ∃ n, LongestMatch (if c = '#' then colour else numeral) (c :: rest) n ∧
          if beginsName (text.drop (i + n)) then
            d.ScannedRun o i (i + n + ((text.drop (i + n)).takeWhile isRunChar).length) .dimension
          else if (text.drop (i + n)).head? = some '%' then d.ScannedRun o i (i + n + 1) .number
          else d.ScannedRun o i (i + n) .number := by
  obtain ⟨d, r, scanned, rfl, full⟩ := scannedTo_scanAll options text
  exact ⟨d, r, scanned, rfl, fun i c rest => full.number⟩

/-- The letter of an exponent that has no digits belongs to the unit. -/
theorem scanAll_numbers_unit :
    ∃ d r, (ofChars ['1', 'e', '+', '5', 'e', 'm']).scanAll default {} = .ok (d, r) ∧
      d.ScannedRun ⟨.standard, true, .builtin⟩ 0 6 .dimension := by
  have options : ScanSetup.options default {} = .ok ⟨.standard, true, .builtin⟩ := rfl
  have noPart : ∀ part ∈ numeralPart, ¬part <+: ['e', 'm'] := by
    intro part known begins
    have letters : isDigit 'e' = false ∧ isDigit 'm' = false ∧ isSign 'm' = false := ⟨rfl, rfl, rfl⟩
    cases mem_numeralPart.mp known <;>
      simp only [List.cons_prefix_cons, List.prefix_nil, reduceCtorEq, and_false] at begins <;>
      grind
  obtain ⟨d, r, scanned, -, numbers⟩ := scanAll_numbers options ['1', 'e', '+', '5', 'e', 'm']
  obtain ⟨n, longest, run⟩ := numbers 0 '1' _
    ⟨rfl, by decide +kernel, by decide +kernel, by decide +kernel⟩
  have known : LongestMatch numeral ['1', 'e', '+', '5', 'e', 'm'] 4 :=
    ((LongestMatch.stop noPart).star prefixCode_numeralPart
      (mem_numeralPart.mpr (.signed (e := 'e') (s := '+') (d := '5') rfl rfl rfl))).mul
      (prefixCode_numeralPart.mono fun w digit => .inl (.inl digit))
      (mem_leadingDigit.mpr ⟨'1', rfl, .inl rfl⟩)
  obtain rfl := longest.unique known
  exact ⟨d, r, scanned, run⟩

end Document

end CssHighlight
