import CssHighlight.Proofs.LongestMatch
import CssHighlight.Proofs.Runs

/-!
# How far unicode ranges go

A unicode range is the longest one that the text goes on with: after its first two characters one to
six range characters, and as many more groups of these as follow behind hyphens. The scan counts
down from seven over each group, and a hyphen that leads one sets the count again.
-/
namespace CssHighlight

open Computability

/-! ### Ranges -/

/-- A group of range characters behind a hyphen. -/
def furtherGroup : Language Char :=
  oneOf (· == '-') * repeats isRangeChar 1 6

def unicodeRange : Language Char :=
  oneOf (fun c => c == 'u' || c == 'U') * oneOf (· == '+') * repeats isRangeChar 1 6 * furtherGroup∗

/-- What a range may go on with when its last group may have so many characters more. One group may
begin with another, so that a range cannot be read group by group. -/
def rangeTail (left : Nat) : Language Char :=
  repeats isRangeChar 0 left * furtherGroup∗

theorem unicodeRange_eq : unicodeRange = oneOf (fun c => c == 'u' || c == 'U') *
    (oneOf (· == '+') * (oneOf isRangeChar * rangeTail 5)) := by
  rw [unicodeRange, rangeTail, repeats_one_succ]
  simp only [mul_assoc]

theorem furtherGroup_mul : furtherGroup * furtherGroup∗ =
    oneOf (· == '-') * (oneOf isRangeChar * rangeTail 5) := by
  rw [rangeTail, ← mul_assoc (oneOf isRangeChar), ← repeats_one_succ, ← mul_assoc]
  rfl

/-- How what a range goes on with begins. -/
inductive RangeTail : Nat → List Char → Prop
  | nil {left : Nat} : RangeTail left []
  | digit {left : Nat} {x : Char} {w : List Char} (digit : isRangeChar x = true)
      (further : w ∈ rangeTail left) : RangeTail (left + 1) (x :: w)
  | group {left : Nat} {x : Char} {w : List Char} (digit : isRangeChar x = true)
      (further : w ∈ rangeTail 5) : RangeTail left ('-' :: x :: w)

theorem mem_rangeTail {left : Nat} {w : List Char} : w ∈ rangeTail left ↔ RangeTail left w := by
  constructor
  · intro member
    obtain ⟨a, ⟨-, le, all⟩, b, groups, rfl⟩ := Language.mem_mul.mp member
    cases a with
    | cons x a =>
      obtain ⟨first, others⟩ := List.forall_mem_cons.mp all
      cases left with
      | zero => cases le
      | succ left =>
        exact .digit first ⟨a, ⟨Nat.zero_le _, Nat.le_of_succ_le_succ le, others⟩, b, groups, rfl⟩
    | nil =>
      rcases mem_kstar_iff_eq_nil_or.mp groups with rfl | groups
      · exact .nil
      · rw [furtherGroup_mul, mem_oneOf_mul] at groups
        obtain ⟨h, hyphen, v, tail, rfl⟩ := groups
        obtain ⟨x, digit, w, further, rfl⟩ := mem_oneOf_mul.mp tail
        rw [beq_iff_eq] at hyphen
        subst hyphen
        exact .group digit further
  · have empty {left : Nat} : [] ∈ repeats isRangeChar 0 left :=
      ⟨Nat.le_refl 0, Nat.zero_le _, nofun⟩
    rintro (_ | ⟨digit, further⟩ | ⟨digit, further⟩)
    · exact ⟨[], empty, [], Language.nil_mem_kstar _, rfl⟩
    · obtain ⟨a, ⟨-, le, all⟩, b, groups, rfl⟩ := Language.mem_mul.mp further
      exact ⟨_ :: a, ⟨Nat.zero_le _, Nat.succ_le_succ le, List.forall_mem_cons.mpr ⟨digit, all⟩⟩,
        b, groups, rfl⟩
    · refine ⟨[], empty, _, mem_kstar_iff_eq_nil_or.mpr (.inr ?_), rfl⟩
      rw [furtherGroup_mul]
      exact mem_oneOf_mul.mpr ⟨'-', rfl, _, mem_oneOf_mul.mpr ⟨_, digit, _, further, rfl⟩, rfl⟩

section LongestTail

variable {left n : Nat} {x : Char} {text : List Char}

theorem longestMatch_digit (digit : isRangeChar x = true)
    (h : LongestMatch (rangeTail left) text n) :
    LongestMatch (rangeTail (left + 1)) (x :: text) (n + 1) := by
  obtain ⟨⟨w, member, begins, rfl⟩, most⟩ := h
  refine ⟨⟨x :: w, mem_rangeTail.mpr (.digit digit member), ?_, rfl⟩, ?_⟩
  · exact (List.prefix_cons_inj x).mpr begins
  rintro _ ⟨v, member', begins', rfl⟩
  cases mem_rangeTail.mp member' with
  | nil => exact Nat.zero_le _
  | digit _ further =>
    -- The same character was read, so only what is behind it can differ.
    exact Nat.succ_le_succ (most ⟨_, further, (List.cons_prefix_cons.mp begins').2, rfl⟩)
  | group =>
    obtain ⟨rfl, -⟩ := List.cons_prefix_cons.mp begins'
    cases digit

theorem longestMatch_group (digit : isRangeChar x = true)
    (h : LongestMatch (rangeTail 5) text n) :
    LongestMatch (rangeTail left) ('-' :: x :: text) (n + 2) := by
  obtain ⟨⟨w, member, begins, rfl⟩, most⟩ := h
  refine ⟨⟨'-' :: x :: w, mem_rangeTail.mpr (.group digit member), ?_, rfl⟩, ?_⟩
  · simpa using begins
  rintro _ ⟨v, member', begins', rfl⟩
  cases mem_rangeTail.mp member' with
  | nil => exact Nat.zero_le _
  | digit hyphen =>
    obtain ⟨rfl, -⟩ := List.cons_prefix_cons.mp begins'
    cases hyphen
  | group _ further =>
    have behind := (List.cons_prefix_cons.mp (List.cons_prefix_cons.mp begins').2).2
    exact Nat.succ_le_succ (Nat.succ_le_succ (most ⟨_, further, behind, rfl⟩))

theorem longestMatch_end (noDigit : text.head?.any isRangeChar = true → left = 0)
    (noGroup : text.head? = some '-' → text.tail.head?.any isRangeChar = false) :
    LongestMatch (rangeTail left) text 0 := by
  refine ⟨⟨[], mem_rangeTail.mpr .nil, List.nil_prefix, rfl⟩, ?_⟩
  rintro _ ⟨v, member, ⟨behind, rfl⟩, rfl⟩
  cases mem_rangeTail.mp member with
  | nil => exact Nat.le_refl 0
  | digit digit => cases noDigit digit
  | group digit => cases (noGroup rfl).symm.trans digit

end LongestTail

namespace Machine

variable {o : ScanOptions} {c : Char} {rest text : List Char} {start p left : Nat} {kind : Style}

/-- The scan has come to a position inside a unicode range, whose last group may have so many
characters more. -/
structure InRange (o : ScanOptions) (text : List Char) (start p left : Nat) : Prop
    extends InRun o text start p .unicodeRange 0 none where
  digitsLeft : (scanned o p text).context.escape.digitsLeft = left + 1

theorem look_unicodeRange {m : Machine} (range : m.style = .unicodeRange) :
    m.look o c rest =
      if c = '-' ∧ rest.head?.any isRangeChar = true then
        m.update (Context.withDigits unicodeRangeDigits)
      else if m.context.escape.digitsLeft - 1 ≤ 0 ∨ isRangeChar c = false then
        (m.update (Context.withDigits (m.context.escape.digitsLeft - 1))).leave o c rest
      else m.update (Context.withDigits (m.context.escape.digitsLeft - 1)) := by
  rw [look, if_neg (by simp [range]), stepRun, range]
  rfl

/-- A range character goes on a range when the group may have one more. -/
theorem InRange.digit (h : InRange o text start p (left + 1)) (ahead : text.drop p = c :: rest)
    (digit : isRangeChar c = true) : InRange o text start (p + 1) left := by
  have looked := @look_unicodeRange o c rest _ h.style
  have digitsLeft := h.digitsLeft
  have plain : c ≠ '-' := by
    rintro rfl
    cases digit
  -- The count is taken down before it is asked for, and one is left for the character itself.
  rw [if_neg (fun hyphen => plain hyphen.1), if_neg (by simp [digit]; omega)] at looked
  have taking := h.looked ahead looked h.style h.held h.after rfl rfl
  exact { taking.goesOn fun _ => rfl with
    digitsLeft := by
      rw [taking.escape]
      show (scanned o p text).context.escape.digitsLeft - 1 = left + 1
      omega }

/-- A hyphen with a range character behind it begins another group. -/
theorem InRange.group (h : InRange o text start p left) (ahead : text.drop p = '-' :: c :: rest)
    (digit : isRangeChar c = true) : InRange o text start (p + 2) 5 := by
  have looked := @look_unicodeRange o '-' (c :: rest) _ h.style
  rw [if_pos ⟨rfl, digit⟩] at looked
  have taking := h.looked ahead looked h.style h.held h.after rfl rfl
  have hyphen : InRange o text start (p + 1) 6 :=
    { taking.goesOn fun _ => rfl with digitsLeft := by rw [taking.escape]; rfl }
  exact hyphen.digit (drop_succ_of_drop ahead) digit

/-- Where the text does not go on with the range the scan looks for a token. -/
theorem InRange.looksForToken (h : InRange o text start p left)
    (noDigit : (text.drop p).head?.any isRangeChar = true → left = 0)
    (noGroup : (text.drop p).head? = some '-' → (text.drop p).tail.head?.any isRangeChar = false) :
    LooksForToken o text p := by
  intro c rest ahead
  have looked := @look_unicodeRange o c rest _ h.style
  have digitsLeft := h.digitsLeft
  rw [ahead] at noDigit noGroup
  have plain : ¬(c = '-' ∧ rest.head?.any isRangeChar = true) := by
    rintro ⟨rfl, digit⟩
    cases (noGroup rfl).symm.trans digit
  have ends : (scanned o p text).context.escape.digitsLeft - 1 ≤ 0 ∨ isRangeChar c = false := by
    cases digit : isRangeChar c with
    | false => exact .inr rfl
    | true =>
      have none := noDigit digit
      exact .inl (by omega)
  rw [if_neg plain, if_pos ends] at looked
  exact ⟨h.held, _, looked⟩

/-- Inside a range all that the text goes on with is taken. -/
theorem InRange.tail {p left : Nat} (h : InRange o text start p left) :
    ∃ n, LongestMatch (rangeTail left) (text.drop p) n ∧
      InRun o text start (p + n) .unicodeRange 0 none ∧ LooksForToken o text (p + n) := by
  -- The cases are those of how what the range goes on with may begin.
  by_cases digit : (text.drop p).head?.any isRangeChar = true ∧ left ≠ 0
  · obtain ⟨c, rest, ahead, digit'⟩ := head?_any_iff.mp digit.1
    obtain ⟨left, rfl⟩ := Nat.exists_eq_succ_of_ne_zero digit.2
    have lt := lt_of_drop ahead
    obtain ⟨n, longest, run, token⟩ := (h.digit ahead digit').tail
    rw [drop_succ_of_drop ahead] at longest
    rw [Nat.add_right_comm] at run token
    exact ⟨n + 1, ahead ▸ longestMatch_digit digit' longest, run, token⟩
  by_cases group : (text.drop p).head? = some '-' ∧ (text.drop p).tail.head?.any isRangeChar = true
  · obtain ⟨tail, ahead⟩ := List.head?_eq_some_iff.mp group.1
    rw [ahead] at group
    obtain ⟨c, rest, rfl, digit'⟩ := head?_any_iff.mp group.2
    have lt := lt_of_drop ahead
    obtain ⟨n, longest, run, token⟩ := (h.group ahead digit').tail
    rw [drop_succ_of_drop (drop_succ_of_drop ahead)] at longest
    rw [Nat.add_right_comm] at run token
    exact ⟨n + 2, ahead ▸ longestMatch_group digit' longest, run, token⟩
  · have noDigit : (text.drop p).head?.any isRangeChar = true → left = 0 := by tauto
    have noGroup : (text.drop p).head? = some '-' →
        (text.drop p).tail.head?.any isRangeChar = false :=
      fun hyphen => Bool.eq_false_iff.mpr fun digit => group ⟨hyphen, digit⟩
    exact ⟨0, longestMatch_end noDigit noGroup, h.toInRun, h.looksForToken noDigit noGroup⟩
termination_by text.length - p

/-- A unicode range begins with the letter and the sign that it holds, and a range character. -/
theorem BeginsRun.unicodeRange (h : BeginsRun o text start c rest .unicodeRange) :
    ∃ x behind, rest = '+' :: x :: behind ∧ (c = 'u' ∨ c = 'U') ∧ isRangeChar x = true ∧
      InRange o text start (start + 2) 6 := by
  obtain ⟨k, held, after, starts⟩ := h.started rfl nofun
  obtain ⟨looked, first, plus, third⟩ := starts.unicodeRange_of_style h.style
  obtain ⟨tail, rfl⟩ := List.head?_eq_some_iff.mp plus
  obtain ⟨x, behind, rfl, digit⟩ := head?_any_iff.mp third
  have taking := h.taking (by rw [looked]; rfl)
  rw [looked] at taking
  have letter : InRun o text start (start + 1) .unicodeRange 1 none :=
    after ▸ taking.goesOn (absurd · Nat.one_ne_zero)
  have sign := letter.passed (drop_succ_of_drop h.ahead)
  have digitsLeft : (scanned o (start + 2) text).context.escape.digitsLeft = 6 + 1 := by
    rw [sign.escape]
    show (scanned o (start + 1) text).context.escape.digitsLeft = 6 + 1
    rw [taking.escape]
    rfl
  exact ⟨x, behind, rfl, first, digit,
    { sign.goesOn fun _ => rfl with digitsLeft := digitsLeft }⟩

end Machine

namespace Document

open Machine

variable {p : Place} {s : ScanSetup} {o : ScanOptions}

/-- A unicode range of a scanned text. -/
theorem ScannedTo.unicodeRange {d : Document} (full : d.ScannedTo o d.text.length) {i : Nat}
    {c : Char} {rest : List Char} (h : BeginsRun o d.text i c rest .unicodeRange) :
    ∃ n, LongestMatch unicodeRange (c :: rest) n ∧ d.ScannedRun o i (i + n) .unicodeRange := by
  obtain ⟨x, behind, rfl, first, digit, range⟩ := h.unicodeRange
  have ahead := drop_succ_of_drop (drop_succ_of_drop h.ahead)
  obtain ⟨n, longest, run, token⟩ := (range.digit ahead digit).tail
  rw [drop_succ_of_drop ahead] at longest
  refine ⟨1 + (1 + (1 + n)), ?_, ?_⟩
  · rw [unicodeRange_eq]
    refine .mul (prefixCode_oneOf _) (singleton_mem_oneOf (c := c) (by simpa using first)) ?_
    refine .mul (prefixCode_oneOf _) (singleton_mem_oneOf rfl) ?_
    exact .mul (prefixCode_oneOf _) (singleton_mem_oneOf digit) longest
  · rw [show i + (1 + (1 + (1 + n))) = i + 2 + 1 + n by omega]
    exact full.run_ahead run token

/-- Each unicode range that the scan starts is the longest one that the text goes on with. -/
theorem scanAll_unicodeRanges (options : s.options p = .ok o) (text : List Char) :
    ∃ d r, (ofChars text).scanAll p s = .ok (d, r) ∧ d.text = text ∧
      ∀ i c rest, BeginsRun o text i c rest .unicodeRange →
        ∃ n, LongestMatch unicodeRange (c :: rest) n ∧ d.ScannedRun o i (i + n) .unicodeRange := by
  obtain ⟨d, r, scanned, rfl, full⟩ := scannedTo_scanAll options text
  exact ⟨d, r, scanned, rfl, fun i c rest => full.unicodeRange⟩

/-- The seventh character of a group is no part of the range. -/
theorem scanAll_unicodeRanges_seventh :
    ∃ d r, (ofChars "a: u+1-123456?".toList).scanAll default {} = .ok (d, r) ∧
      d.ScannedRun ⟨.standard, true, .builtin⟩ 3 13 .unicodeRange := by
  have options : ScanSetup.options default {} = .ok ⟨.standard, true, .builtin⟩ := rfl
  have group : LongestMatch (rangeTail 5) "-123456?".toList 7 := by
    refine longestMatch_group rfl ?_
    iterate 5 refine longestMatch_digit rfl ?_
    exact longestMatch_end (fun _ => rfl) nofun
  have known : LongestMatch unicodeRange "u+1-123456?".toList 10 := by
    rw [unicodeRange_eq]
    exact .mul (prefixCode_oneOf _) (singleton_mem_oneOf rfl)
      (.mul (prefixCode_oneOf _) (singleton_mem_oneOf rfl)
        (.mul (prefixCode_oneOf _) (singleton_mem_oneOf rfl) group))
  obtain ⟨d, r, scanned, -, ranges⟩ := scanAll_unicodeRanges options "a: u+1-123456?".toList
  obtain ⟨n, longest, run⟩ := ranges 3 'u' "+1-123456?".toList
    ⟨rfl, by decide +kernel, by decide +kernel, by decide +kernel⟩
  obtain rfl := longest.unique known
  exact ⟨d, r, scanned, run⟩

end Document

end CssHighlight
