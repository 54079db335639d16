import CssHighlight.Scan.Step

/-!
# Letters of either case

No rule tells the two cases of an ASCII letter apart: of a character it asks only for its class, or
whether it is a certain mark, and names are compared in lower case. What lower case makes of other
letters may depend on the letters around them, but not on the case of these.
-/
namespace CssHighlight

/-- Questions about a character that both cases of an ASCII letter answer alike. -/
def CaseBlind (p : Char → Bool) : Prop :=
  ∀ c : Char, p c.toLower = p c

/-- Neighbours, or ends of text, that differ at most in the case of an ASCII letter. -/
def SameLetter (x y : Option Char) : Prop :=
  x.map Char.toLower = y.map Char.toLower

/-- Texts that differ at most in the case of ASCII letters. -/
def SameLetters (text text' : List Char) : Prop :=
  text.map Char.toLower = text'.map Char.toLower

instance (text text' : List Char) : Decidable (SameLetters text text') :=
  inferInstanceAs (Decidable (_ = _))

/-- A character is one of the capital letters, or stays as it is. -/
theorem toLower_cases (c : Char) :
    (∃ k < 26, c = Char.ofNat (65 + k)) ∨ ¬('A' ≤ c ∧ c ≤ 'Z') ∧ c.toLower = c := by
  by_cases upper : 'A' ≤ c ∧ c ≤ 'Z'
  · -- A capital letter is found by its distance from the first one.
    have low : 65 ≤ c.toNat := UInt32.le_iff_toNat_le.mp upper.1
    have high : c.toNat ≤ 90 := UInt32.le_iff_toNat_le.mp upper.2
    refine .inl ⟨c.toNat - 65, by omega, ?_⟩
    rw [Nat.add_sub_cancel' low, Char.ofNat_toNat]
  · exact .inr ⟨upper, dif_neg upper⟩

theorem toLower_eq_self {c : Char} (beyond : ¬c.toNat < 0x80) : c.toLower = c := by
  rcases toLower_cases c with ⟨k, below, rfl⟩ | ⟨-, same⟩
  · revert k
    decide
  · exact same

/-- It is enough to ask the capital letters. -/
theorem caseBlind_of_capitals {p : Char → Bool}
    (capitals : ∀ k < 26, p (Char.ofNat (65 + k)).toLower = p (Char.ofNat (65 + k))) :
    CaseBlind p := by
  intro c
  rcases toLower_cases c with ⟨k, below, rfl⟩ | ⟨-, same⟩
  · exact capitals k below
  · rw [same]

/-! ### Classes of characters -/

theorem caseBlind_isDigit : CaseBlind isDigit := caseBlind_of_capitals (by decide)

theorem caseBlind_isHexDigit : CaseBlind isHexDigit := caseBlind_of_capitals (by decide)

theorem caseBlind_isLineBreak : CaseBlind isLineBreak := caseBlind_of_capitals (by decide)

theorem caseBlind_isSeparator : CaseBlind isSeparator := caseBlind_of_capitals (by decide)

theorem caseBlind_isGraphic : CaseBlind isGraphic := caseBlind_of_capitals (by decide)

theorem caseBlind_isNameStart : CaseBlind isNameStart := caseBlind_of_capitals (by decide)

theorem caseBlind_isNameChar : CaseBlind isNameChar := caseBlind_of_capitals (by decide)

theorem caseBlind_isAfterLeader : CaseBlind isAfterLeader := caseBlind_of_capitals (by decide)

theorem caseBlind_isRunChar : CaseBlind isRunChar := caseBlind_of_capitals (by decide)

theorem caseBlind_isRangeChar : CaseBlind isRangeChar := caseBlind_of_capitals (by decide)

/-- Being a certain mark is no matter of case. -/
theorem caseBlind_beq {x : Char} (mark : x.isAlpha = false) : CaseBlind (· == x) := by
  have letters : ∀ k < 26, (Char.ofNat (65 + k)).isAlpha = true ∧
      (Char.ofNat (65 + k)).toLower.isAlpha = true := by decide
  have other {y : Char} (letter : y.isAlpha = true) : (y == x) = false := by
    refine beq_false_of_ne ?_
    intro equal
    rw [equal, mark] at letter
    exact Bool.noConfusion letter
  refine caseBlind_of_capitals fun k below => ?_
  rw [other (letters k below).1, other (letters k below).2]

theorem CaseBlind.eq {p : Char → Bool} (blind : CaseBlind p) {c c' : Char}
    (same : c.toLower = c'.toLower) : p c = p c' := by
  rw [← blind c, same, blind c']

theorem toLower_eq_iff {c c' x : Char} (same : c.toLower = c'.toLower)
    (mark : x.isAlpha = false) : c = x ↔ c' = x := by
  simpa using Bool.eq_iff_iff.mp ((caseBlind_beq mark).eq same)

/-! ### Neighbours -/

namespace SameLetter

variable {x y : Option Char}

theorem refl (x : Option Char) : SameLetter x x := Eq.refl (x.map Char.toLower)

theorem any_eq (same : SameLetter x y) {p : Char → Bool} (blind : CaseBlind p) :
    x.any p = y.any p := by
  have lowered (z : Option Char) : z.any p = (z.map Char.toLower).any p := by
    cases z with
    | none => rfl
    | some c => exact (blind c).symm
  rw [lowered x, lowered y, same]

theorem beq_eq (same : SameLetter x y) {q : Char} (mark : q.isAlpha = false) :
    (x == some q) = (y == some q) := by
  have asked (z : Option Char) : (z == some q) = z.any (· == q) := by
    cases z <;> simp
  rw [asked x, asked y, same.any_eq (caseBlind_beq mark)]

theorem eq_some_iff (same : SameLetter x y) {q : Char} (mark : q.isAlpha = false) :
    x = some q ↔ y = some q := by
  simpa using Bool.eq_iff_iff.mp (same.beq_eq mark)

end SameLetter

/-! ### Texts -/

namespace SameLetters

variable {c c' : Char} {text text' rest rest' : List Char}

theorem refl (text : List Char) : SameLetters text text := Eq.refl (text.map Char.toLower)

theorem length_eq (same : SameLetters text text') : text.length = text'.length := by
  simpa using congrArg List.length same

theorem first (same : SameLetters (c :: rest) (c' :: rest')) : c.toLower = c'.toLower :=
  (List.cons.inj same).1

theorem behind (same : SameLetters (c :: rest) (c' :: rest')) : SameLetters rest rest' :=
  (List.cons.inj same).2

theorem eq_nil (same : SameLetters [] text') : text' = [] :=
  List.map_eq_nil_iff.mp same.symm

theorem uncons (same : SameLetters (c :: rest) text') : ∃ c' rest', text' = c' :: rest' := by
  cases text' with
  | nil => cases same
  | cons c' rest' => exact ⟨c', rest', rfl⟩

theorem cons (first : c.toLower = c'.toLower) (behind : SameLetters rest rest') :
    SameLetters (c :: rest) (c' :: rest') := by
  simp only [SameLetters, List.map_cons, first, List.cons.injEq, true_and]
  exact behind

theorem head? (same : SameLetters text text') : SameLetter text.head? text'.head? := by
  rw [SameLetter, ← List.head?_map, ← List.head?_map, same]

theorem tail (same : SameLetters text text') : SameLetters text.tail text'.tail := by
  rw [SameLetters, List.map_tail, List.map_tail, same]

theorem take (same : SameLetters text text') (n : Nat) :
    SameLetters (text.take n) (text'.take n) := by
  rw [SameLetters, List.map_take, List.map_take, same]

theorem find? (same : SameLetters text text') {p : Char → Bool} (blind : CaseBlind p) :
    SameLetter (text.find? p) (text'.find? p) := by
  have lowered (s : List Char) :
      (s.find? p).map Char.toLower = (s.map Char.toLower).find? p := by
    rw [List.find?_map]
    exact congrArg (fun q => (s.find? q).map Char.toLower) (funext fun c => (blind c).symm)
  rw [SameLetter, lowered, lowered, same]

theorem dropWhile (same : SameLetters text text') {p : Char → Bool} (blind : CaseBlind p) :
    SameLetters (text.dropWhile p) (text'.dropWhile p) := by
  have lowered (s : List Char) :
      (s.dropWhile p).map Char.toLower = (s.map Char.toLower).dropWhile p := by
    rw [List.dropWhile_map]
    exact congrArg (fun q => (s.dropWhile q).map Char.toLower) (funext fun c => (blind c).symm)
  rw [SameLetters, lowered, lowered, same]

/-- A word without letters stands at the front of both texts or of neither. -/
theorem isPrefixOf_eq (same : SameLetters text text') {word : List Char}
    (marks : word.all (fun x => !x.isAlpha) = true) :
    word.isPrefixOf text = word.isPrefixOf text' := by
  induction word generalizing text text' with
  | nil => simp
  | cons x word ih =>
    simp only [List.all_cons, Bool.and_eq_true, Bool.not_eq_true'] at marks
    obtain ⟨mark, others⟩ := marks
    cases text with
    | nil => rw [same.eq_nil]
    | cons c rest =>
      obtain ⟨c', rest', rfl⟩ := same.uncons
      have first : (x == c) = (x == c') := by
        rw [Bool.eq_iff_iff, beq_iff_eq, beq_iff_eq, eq_comm, toLower_eq_iff same.first mark,
          eq_comm]
      simp only [List.isPrefixOf, first, ih same.behind others]

/-- Line breaks stand in the same places. -/
theorem endsLine_eq (same : SameLetters (c :: rest) (c' :: rest')) :
    endsLine c rest = endsLine c' rest' := by
  have feed := (caseBlind_beq (x := '\n') (by decide)).eq same.first
  have carriage := (caseBlind_beq (x := '\r') (by decide)).eq same.first
  have next := same.behind.head?.beq_eq (q := '\n') (by decide)
  simp only [endsLine, bne, feed, carriage, next]

theorem lineStartsFrom_eq (same : SameLetters text text') (position : Nat) :
    lineStartsFrom position text = lineStartsFrom position text' := by
  induction text generalizing text' position with
  | nil => rw [same.eq_nil]
  | cons c rest ih =>
    obtain ⟨c', rest', rfl⟩ := same.uncons
    simp only [lineStartsFrom, same.endsLine_eq, ih same.behind]

/-! ### Lower case -/

theorem lowerChar_ascii {c : Char} (ascii : c.toNat < 0x80) (before after : List Char) :
    Text.lowerChar before c after = [c.toLower] := by
  have capitals : ∀ k < 26, ('A' ≤ Char.ofNat (65 + k) ∧ Char.ofNat (65 + k) ≤ 'Z') ∧
      Char.ofNat ((Char.ofNat (65 + k)).toNat + 32) = (Char.ofNat (65 + k)).toLower := by decide
  unfold Text.lowerChar
  rw [if_pos ascii]
  rcases toLower_cases c with ⟨k, below, rfl⟩ | ⟨other, same⟩
  · rw [if_pos (capitals k below).1, (capitals k below).2]
  · rw [if_neg other, same]

/-- Only the ranges that begin below the codes of letters are worth asking. -/
theorem inRanges_filter (ranges : List (Nat × Nat)) {code : Nat} (letter : code ≤ 122) :
    Text.inRanges (ranges.filter fun range => range.1 ≤ 122) code = Text.inRanges ranges code := by
  simp only [Text.inRanges, List.any_filter]
  refine congrArg ranges.any (funext fun range => ?_)
  by_cases below : range.1 ≤ code
  · simp [below, Nat.le_trans below letter]
  · simp [below]

theorem caseBlind_inRanges {ranges low : List (Nat × Nat)}
    (front : ranges.filter (fun range => range.1 ≤ 122) = low)
    (capitals : ∀ k < 26, Text.inRanges low (97 + k) = Text.inRanges low (65 + k)) :
    CaseBlind fun c => Text.inRanges ranges c.toNat := by
  have codes : ∀ k < 26, (Char.ofNat (65 + k)).toLower.toNat = 97 + k ∧
      (Char.ofNat (65 + k)).toNat = 65 + k := by decide
  refine caseBlind_of_capitals fun k below => ?_
  rw [(codes k below).1, (codes k below).2, ← inRanges_filter ranges (by omega),
    ← inRanges_filter ranges (by omega), front]
  exact capitals k below

/-- Whether a cased letter is met does not depend on the case of letters. -/
theorem meetsCased_eq (same : SameLetters text text') :
    Text.meetsCased text = Text.meetsCased text' := by
  have ignorable : CaseBlind fun c => Text.inRanges Text.caseIgnorableRanges c.toNat := by
    have front : Text.caseIgnorableRanges.filter (fun range => range.1 ≤ 122) =
        [(39, 39), (46, 46), (58, 58), (94, 94), (96, 96)] := by decide +kernel
    exact caseBlind_inRanges front (by decide)
  have cased : CaseBlind fun c => Text.inRanges Text.casedRanges c.toNat := by
    have front : Text.casedRanges.filter (fun range => range.1 ≤ 122) =
        [(65, 90), (97, 122)] := by decide +kernel
    exact caseBlind_inRanges front (by decide)
  have met (s : List Char) : Text.meetsCased s =
      (s.dropWhile fun c => Text.inRanges Text.caseIgnorableRanges c.toNat).head?.any
        fun c => Text.inRanges Text.casedRanges c.toNat := by
    unfold Text.meetsCased
    split
    next none => rw [none]; rfl
    next some => rw [some]; rfl
  rw [met, met, (same.dropWhile ignorable).head?.any_eq cased]

theorem lowerChar_eq {before before' : List Char} (earlier : SameLetters before before')
    (same : SameLetters (c :: rest) (c' :: rest')) :
    Text.lowerChar before c rest = Text.lowerChar before' c' rest' := by
  have blind : CaseBlind fun c => decide (c.toNat < 0x80) := caseBlind_of_capitals (by decide)
  have ascii : c.toNat < 0x80 ↔ c'.toNat < 0x80 := by
    simpa using Bool.eq_iff_iff.mp (blind.eq same.first)
  by_cases letter : c.toNat < 0x80
  · rw [lowerChar_ascii letter, lowerChar_ascii (ascii.mp letter), same.first]
  · -- Beyond ASCII the characters are equal, and only the neighbours may differ.
    have equal := same.first
    rw [toLower_eq_self letter, toLower_eq_self (mt ascii.mpr letter)] at equal
    subst equal
    simp only [Text.lowerChar, meetsCased_eq earlier, meetsCased_eq same.behind]

theorem lowerFrom_eq {before before' : List Char} (earlier : SameLetters before before')
    (same : SameLetters text text') :
    Text.lowerFrom before text = Text.lowerFrom before' text' := by
  induction text generalizing text' before before' with
  | nil =>
    rw [same.eq_nil]
    rfl
  | cons c rest ih =>
    obtain ⟨c', rest', rfl⟩ := same.uncons
    rw [Text.lowerFrom, Text.lowerFrom, lowerChar_eq earlier same,
      ih (.cons same.first earlier) same.behind]

/-- Texts that differ only in the case of ASCII letters have the same lower case. -/
theorem lowerChars_eq (same : SameLetters text text') :
    Text.lowerChars text = Text.lowerChars text' :=
  lowerFrom_eq (.refl []) same

end SameLetters

end CssHighlight
