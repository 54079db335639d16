import Mathlib.Computability.Language

/-!
# Longest matches

The longest word of a language that a text begins with. For words that are put together from parts
none of which begins with another one, there is only one way to read on, so the longest match is
found part by part.
-/
namespace CssHighlight

open Computability

variable {α : Type} {first words parts : Language α} {a text : List α} {n : Nat}

/-- A text begins with a word of this length, and with no longer one. -/
def LongestMatch (words : Language α) (text : List α) (n : Nat) : Prop :=
  IsGreatest {k | ∃ w ∈ words, w <+: text ∧ w.length = k} n

/-- No word begins with another one. -/
def PrefixCode (words : Language α) : Prop :=
  ∀ a ∈ words, ∀ b ∈ words, a <+: b → a = b

/-- Of the words of a prefix code a text begins with one at most. -/
theorem PrefixCode.unique (code : PrefixCode words) {b : List α} (ha : a ∈ words) (hb : b ∈ words)
    (begins : a <+: text) (begins' : b <+: text) : a = b := by
  rcases List.prefix_or_prefix_of_prefix begins begins' with le | le
  · exact code a ha b hb le
  · exact (code b hb a ha le).symm

theorem PrefixCode.mono (code : PrefixCode words) (fewer : ∀ w ∈ first, w ∈ words) :
    PrefixCode first :=
  fun a ha b hb => code a (fewer a ha) b (fewer b hb)

/-- Behind a word of a prefix code only the rest of the text matters. -/
theorem LongestMatch.mul (code : PrefixCode first) (ha : a ∈ first)
    (h : LongestMatch words text n) : LongestMatch (first * words) (a ++ text) (a.length + n) := by
  obtain ⟨⟨w, hw, begins, rfl⟩, most⟩ := h
  refine ⟨⟨a ++ w, Language.append_mem_mul ha hw, ?_, List.length_append⟩, ?_⟩
  · exact (List.prefix_append_right_inj a).mpr begins
  · -- Any other match begins with the same word of the code, so the matches differ behind it.
    rintro _ ⟨_, product, begins', rfl⟩
    obtain ⟨b, hb, v, hv, rfl⟩ := Language.mem_mul.mp product
    obtain rfl := code.unique hb ha ((List.prefix_append b v).trans begins')
      (List.prefix_append a text)
    rw [List.prefix_append_right_inj] at begins'
    have le := most ⟨v, hv, begins', rfl⟩
    rw [List.length_append]
    omega

theorem mem_kstar_iff_eq_nil_or {w : List α} :
    w ∈ parts∗ ↔ w = [] ∨ w ∈ parts * parts∗ := by
  rw [← Language.mem_one, ← Language.mem_add, Language.one_add_self_mul_kstar_eq_kstar]

theorem LongestMatch.star (code : PrefixCode parts) (ha : a ∈ parts)
    (h : LongestMatch parts∗ text n) : LongestMatch parts∗ (a ++ text) (a.length + n) := by
  obtain ⟨⟨w, hw, begins, length⟩, most⟩ := LongestMatch.mul code ha h
  refine ⟨⟨w, mem_kstar_iff_eq_nil_or.mpr (.inr hw), begins, length⟩, ?_⟩
  rintro _ ⟨v, hv, begins', rfl⟩
  rcases mem_kstar_iff_eq_nil_or.mp hv with rfl | hv
  · exact Nat.zero_le _
  · exact most ⟨v, hv, begins', rfl⟩

/-- Where the text begins with no part, there is nothing to read. -/
theorem LongestMatch.stop (none : ∀ a ∈ parts, ¬a <+: text) : LongestMatch parts∗ text 0 := by
  refine ⟨⟨[], Language.nil_mem_kstar parts, List.nil_prefix, rfl⟩, ?_⟩
  rintro _ ⟨v, hv, begins, rfl⟩
  rcases mem_kstar_iff_eq_nil_or.mp hv with rfl | hv
  · exact Nat.le_refl 0
  · obtain ⟨a, ha, b, -, rfl⟩ := Language.mem_mul.mp hv
    exact absurd ((List.prefix_append a b).trans begins) (none a ha)

/-! ### Single characters -/

/-- The words of one character of a class. -/
def oneOf (p : α → Bool) : Language α :=
  {w | ∃ c, p c = true ∧ w = [c]}

variable {p : α → Bool}

theorem mem_oneOf {w : List α} : w ∈ oneOf p ↔ ∃ c, p c = true ∧ w = [c] := Iff.rfl

theorem mem_oneOf_mul {w : List α} :
    w ∈ oneOf p * words ↔ ∃ c, p c = true ∧ ∃ v ∈ words, w = c :: v := by
  rw [Language.mem_mul]
  constructor
  · rintro ⟨_, ⟨c, holds, rfl⟩, v, hv, rfl⟩
    exact ⟨c, holds, v, hv, rfl⟩
  · rintro ⟨c, holds, v, hv, rfl⟩
    exact ⟨[c], ⟨c, holds, rfl⟩, v, hv, rfl⟩

theorem singleton_mem_oneOf {c : α} (holds : p c = true) : [c] ∈ oneOf p :=
  ⟨c, holds, rfl⟩

theorem prefixCode_oneOf (p : α → Bool) : PrefixCode (oneOf p) := by
  rintro _ ⟨c, -, rfl⟩ _ ⟨c', -, rfl⟩ begins
  exact begins.eq_of_length rfl

/-- The words of so many characters of a class. -/
def repeats (p : α → Bool) (least most : Nat) : Language α :=
  {w | least ≤ w.length ∧ w.length ≤ most ∧ ∀ c ∈ w, p c = true}

theorem mem_repeats {least most : Nat} {w : List α} : w ∈ repeats p least most ↔
    least ≤ w.length ∧ w.length ≤ most ∧ ∀ c ∈ w, p c = true := Iff.rfl

theorem repeats_one_succ (p : α → Bool) (most : Nat) :
    repeats p 1 (most + 1) = oneOf p * repeats p 0 most := by
  ext w
  rw [mem_oneOf_mul, mem_repeats]
  constructor
  · rintro ⟨least, le, all⟩
    cases w with
    | nil => cases least
    | cons c w =>
      obtain ⟨first, others⟩ := List.forall_mem_cons.mp all
      exact ⟨c, first, w, ⟨Nat.zero_le _, Nat.le_of_succ_le_succ le, others⟩, rfl⟩
  · rintro ⟨c, first, w, ⟨-, le, others⟩, rfl⟩
    exact ⟨Nat.succ_le_succ (Nat.zero_le _), Nat.succ_le_succ le,
      List.forall_mem_cons.mpr ⟨first, others⟩⟩

/-- The longest run of characters of a class. -/
theorem longestMatch_takeWhile (p : α → Bool) (text : List α) :
    LongestMatch (oneOf p)∗ text (text.takeWhile p).length := by
  induction text with
  | nil =>
    refine .stop ?_
    rintro _ ⟨c, -, rfl⟩ begins
    exact List.cons_ne_nil c [] (List.prefix_nil.mp begins)
  | cons c text ih =>
    rw [List.takeWhile_cons]
    split
    next holds =>
      rw [List.length_cons, Nat.add_comm]
      exact ih.star (prefixCode_oneOf p) (singleton_mem_oneOf holds)
    next fails =>
      refine .stop ?_
      rintro _ ⟨c', holds, rfl⟩ begins
      rw [(List.cons_prefix_cons.mp begins).1] at holds
      exact fails holds

end CssHighlight
