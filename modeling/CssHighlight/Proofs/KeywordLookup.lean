import CssHighlight.Keyword.List

/-!
# Looking up keywords

The words of a keyword list are in increasing order, so that bisection finds the place where a name
would stand, and a name is found exactly when it is one of the words. The words that begin with a
name stand together from that place on, so that a walk over them meets every word that goes on with
a marker.
-/
namespace CssHighlight.KeywordList

variable {words : Array String} {name : String} {low high : Nat}

/-- The words up to index `low` are below `name`, and those from index `high` on are not. -/
structure Brackets (words : Array String) (name : String) (low high : Nat) : Prop where
  ordered : low ≤ high
  fits : high ≤ words.size
  below : ∀ i (inside : i < words.size), i < low → words[i] < name
  above : ∀ i (inside : i < words.size), high ≤ i → ¬words[i] < name

theorem getElem_lt (sorted : words.toList.Pairwise (· < ·)) {i j : Nat} (less : i < j)
    (inside : j < words.size) : words[i] < words[j] :=
  List.pairwise_iff_getElem.mp sorted i j (Nat.lt_trans less inside) inside less

/-- Half of the words between the brackets are enough to ask on. -/
theorem Brackets.halve (sorted : words.toList.Pairwise (· < ·)) (h : Brackets words name low high)
    (open_ : low < high) :
    if (words[(low + high) / 2]?.getD "") < name then
      Brackets words name ((low + high) / 2 + 1) high
    else Brackets words name low ((low + high) / 2) := by
  have fits := h.fits
  have inside : (low + high) / 2 < words.size := by omega
  rw [Array.getElem?_eq_getElem inside, Option.getD_some]
  split
  next less =>
    refine ⟨by omega, fits, fun i within before => ?_, h.above⟩
    rcases Nat.lt_or_eq_of_le (Nat.le_of_lt_succ before) with lower | rfl
    · exact String.lt_trans (getElem_lt sorted lower inside) less
    · exact less
  next notLess =>
    refine ⟨by omega, by omega, h.below, fun i within behind less => ?_⟩
    rcases Nat.lt_or_eq_of_le behind with higher | rfl
    · exact notLess (String.lt_trans (getElem_lt sorted higher within) less)
    · exact notLess less

/-- Bisection closes the brackets. -/
theorem Brackets.bisect (sorted : words.toList.Pairwise (· < ·))
    (h : Brackets words name low high) :
    Brackets words name (bisect words name low high) (bisect words name low high) := by
  fun_induction KeywordList.bisect words name low high with
  | case1 low high open_ middle less ih =>
    have half := h.halve sorted open_
    rw [if_pos less] at half
    exact ih half
  | case2 low high open_ middle notLess ih =>
    have half := h.halve sorted open_
    rw [if_neg notLess] at half
    exact ih half
  | case3 low high closed =>
    obtain rfl : low = high := Nat.le_antisymm h.ordered (Nat.le_of_not_lt closed)
    exact h

theorem brackets_position (list : KeywordList) (name : String) :
    Brackets list.words name (list.position name) (list.position name) := by
  refine Brackets.bisect list.sorted ⟨Nat.zero_le _, Nat.le_refl _, ?_, ?_⟩
  · intro i _ before
    exact absurd before (Nat.not_lt_zero i)
  · intro i inside behind
    exact absurd inside (Nat.not_lt_of_le behind)

/-- A name is found exactly when it is one of the words. -/
theorem contains_some_iff (list : KeywordList) (name : String) :
    list.contains (some name) = true ↔ name ≠ "" ∧ name ∈ list.words := by
  have found : list.words[list.position name]? = some name ↔ name ∈ list.words := by
    constructor
    · exact Array.mem_of_getElem?
    · intro member
      obtain ⟨i, inside, rfl⟩ := Array.mem_iff_getElem.mp member
      have place := brackets_position list list.words[i]
      -- The word stands neither before nor behind the place that was found.
      have behind : list.position list.words[i] ≤ i := by
        refine Nat.le_of_not_lt fun before => ?_
        exact String.lt_irrefl _ (place.below i inside before)
      rcases Nat.lt_or_eq_of_le behind with before | same
      · have within := Nat.lt_trans before inside
        exact absurd (getElem_lt list.sorted before inside)
          (place.above _ within (Nat.le_refl _))
      · rw [same]
        exact Array.getElem?_eq_getElem inside
  simp only [contains, Bool.and_eq_true, beq_iff_eq, decide_eq_true_eq, found]

/-! ### Words that begin with a name -/

/-- What begins with a name is below every text that the name is below and that does not begin with
it. -/
theorem append_lt_of_not_prefix {name word : List Char} (notBelow : ¬word < name)
    (other : ¬name <+: word) (rest : List Char) : name ++ rest < word := by
  induction name generalizing word with
  | nil => exact absurd List.nil_prefix other
  | cons c name ih =>
    cases word with
    | nil => exact absurd (List.nil_lt_cons c name) notBelow
    | cons d word =>
      rw [List.cons_lt_cons_iff, not_or, not_and] at notBelow
      rw [List.cons_append, List.cons_lt_cons_iff]
      by_cases same : c = d
      · subst same
        refine .inr ⟨rfl, ih (notBelow.2 rfl) fun begins => other ?_⟩
        exact List.cons_prefix_cons.mpr ⟨rfl, begins⟩
      · refine .inl (Decidable.byContradiction fun notLess => same ?_)
        exact Char.le_antisymm (Char.not_lt.mp notBelow.1) (Char.not_lt.mp notLess)

/-- The walk meets a word that ends behind the name or goes on with the marker, if there is one. -/
theorem matchesFrom_iff {name : List Char} {marker : Char} {words : List String}
    (sorted : words.Pairwise (· < ·)) (notBelow : ∀ word ∈ words, ¬word.toList < name) :
    matchesFrom name [marker] words = true ↔
      ∃ word ∈ words, word.toList = name ∨ name ++ [marker] <+: word.toList := by
  induction words with
  | nil => simp [matchesFrom]
  | cons head rest ih =>
    obtain ⟨above, sorted⟩ := List.pairwise_cons.mp sorted
    obtain ⟨headNotBelow, notBelow⟩ := List.forall_mem_cons.mp notBelow
    rw [matchesFrom]
    split
    next begins =>
      obtain ⟨tail, spelled⟩ := List.isPrefixOf_iff_prefix.mp begins
      simp only [List.mem_cons, exists_eq_or_imp, ← ih sorted notBelow]
      rw [← spelled, List.drop_left, List.prefix_append_right_inj]
      cases tail with
      | nil => simp
      | cons c tail =>
        simp only [List.append_right_eq_self, List.cons_ne_nil, false_or, List.cons_prefix_cons,
          List.nil_prefix, and_true, List.cons.injEq]
        split
        next same => exact iff_of_true rfl (.inl same.symm)
        next other => exact ⟨.inr, fun met => met.resolve_left (Ne.symm other)⟩
    next begins =>
      have other : ¬name <+: head.toList := fun found =>
        begins (List.isPrefixOf_iff_prefix.mpr found)
      -- The words behind the head are above it, and so above all that begins with the name.
      have never {word : String} (member : word ∈ head :: rest) : ¬name <+: word.toList := by
        rcases List.mem_cons.mp member with rfl | later
        · exact other
        · rintro ⟨tail, spelled⟩
          have below := append_lt_of_not_prefix headNotBelow other tail
          rw [spelled] at below
          exact String.lt_irrefl _ (String.lt_trans (above word later) (String.lt_iff.mpr below))
      refine iff_of_false Bool.false_ne_true ?_
      rintro ⟨word, member, same | further⟩
      · exact never member (same ▸ List.prefix_rfl)
      · exact never member ((List.prefix_append name [marker]).trans further)

/-- A name is found with a marker exactly when it is one of the words, or one of the words begins
with it and goes on with the marker. -/
theorem containsPrefixed_some_iff (list : KeywordList) (name : String) (marker : Char) :
    list.containsPrefixed (String.singleton marker) (some name) = true ↔
      name ≠ "" ∧ (name ∈ list.words ∨
        ∃ word ∈ list.words, (name.push marker).toList <+: word.toList) := by
  have place := brackets_position list name
  have sorted : (list.words.toList.drop (list.position name)).Pairwise (· < ·) :=
    list.sorted.sublist (List.drop_sublist _ _)
  have notBelow : ∀ word ∈ list.words.toList.drop (list.position name),
      ¬word.toList < name.toList := by
    intro word member
    obtain ⟨i, inside, rfl⟩ := List.mem_iff_getElem.mp member
    rw [List.getElem_drop, Array.getElem_toList, ← String.lt_iff]
    exact place.above _ _ (Nat.le_add_right _ _)
  -- No word in front of the place begins with the name, since it would not be below the name.
  have behind {word : String} (member : word ∈ list.words)
      (begins : name.toList <+: word.toList) :
      word ∈ list.words.toList.drop (list.position name) := by
    obtain ⟨i, inside, rfl⟩ := Array.mem_iff_getElem.mp member
    have le : list.position name ≤ i := by
      refine Nat.le_of_not_lt fun before => ?_
      have below := String.lt_iff.mp (place.below i inside before)
      exact List.not_lt.mpr begins.le below
    refine List.mem_iff_getElem.mpr ⟨i - list.position name, ?_, ?_⟩
    · rw [List.length_drop, Array.length_toList]
      omega
    · simp only [List.getElem_drop, Array.getElem_toList, Nat.add_sub_cancel' le]
  have marked : (String.singleton marker).toList = [marker] := String.toList_singleton marker
  simp only [containsPrefixed, Bool.and_eq_true, decide_eq_true_eq, marked,
    matchesFrom_iff sorted notBelow, String.toList_push]
  refine and_congr_right fun _ => ⟨?_, ?_⟩
  · rintro ⟨word, member, same | further⟩
    · exact .inl (String.toList_inj.mp same ▸ Array.mem_toList_iff.mp (List.mem_of_mem_drop member))
    · exact .inr ⟨word, Array.mem_toList_iff.mp (List.mem_of_mem_drop member), further⟩
  · rintro (member | ⟨word, member, further⟩)
    · exact ⟨name, behind member List.prefix_rfl, .inl rfl⟩
    · exact ⟨word, behind member ((List.prefix_append _ _).trans further), .inr further⟩

/-! ### The words of a list -/

/-- A word is kept of a list of words when one of them that is not blank has it as its form: trimmed
and in lower case. -/
def Kept (words : List String) (word : String) : Prop :=
  ∃ source ∈ words, Text.trim source ≠ "" ∧ normalForm source = word

theorem mem_sortWords {word : String} {words : List String} :
    word ∈ sortWords words ↔ word ∈ words := by
  induction words with
  | nil => rfl
  | cons head rest ih =>
    have inserted : sortWords (head :: rest) = insertWord head (sortWords rest) := rfl
    rw [inserted, mem_insertWord, ih, List.mem_cons]

theorem mem_ofWords_iff {words : List String} {word : String} :
    word ∈ (ofWords words).words ↔ Kept words word := by
  simp only [ofWords, List.mem_toArray, mem_sortWords, List.mem_map, List.mem_filter,
    decide_eq_true_eq, and_assoc, Kept]

/-- The words of a list are those that it keeps, in increasing order of their code points. A name is
found exactly when it is one of them, and with a marker also when one of them begins with the name
and the marker. -/
theorem ofWords_lookup (words : List String) (name : Option String) (marker : Char) :
    (ofWords words).words.toList.Pairwise
        (fun a b => a.toList.map Char.toNat < b.toList.map Char.toNat) ∧
      (∀ word, word ∈ (ofWords words).words ↔ Kept words word) ∧
      ((ofWords words).contains name = true ↔
        ∃ found, name = some found ∧ found ≠ "" ∧ Kept words found) ∧
      ((ofWords words).containsPrefixed (String.singleton marker) name = true ↔
        ∃ found, name = some found ∧ found ≠ "" ∧ (Kept words found ∨
          ∃ word, Kept words word ∧ (found.push marker).toList <+: word.toList)) := by
  refine ⟨(ofWords words).sorted.imp fun below => ?_, fun _ => mem_ofWords_iff, ?_, ?_⟩
  · exact List.map_lt (fun _ _ less => less) (String.lt_iff.mp below)
  · cases name with
    | none => simp [contains]
    | some found =>
      simp only [contains_some_iff, mem_ofWords_iff, Option.some.injEq, exists_eq_left']
  · cases name with
    | none => simp [containsPrefixed]
    | some found =>
      simp only [containsPrefixed_some_iff, mem_ofWords_iff, Option.some.injEq, exists_eq_left']

/-- A blank word, one in capitals, one that is given twice, and one with a marker among words with
characters below and above it. -/
example :
    let list := ofWords ["Not", "\t", "nth-child(", "not", "nth-child-", "nth-child", "nth"]
    list.words.toList = ["not", "nth", "nth-child", "nth-child(", "nth-child-"] := by
  decide +kernel

end CssHighlight.KeywordList
