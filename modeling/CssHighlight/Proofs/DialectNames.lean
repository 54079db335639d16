import CssHighlight.Config.Basic
import CssHighlight.Proofs.LetterCase
import Mathlib.Data.List.Basic

/-!
# Names of dialects

A dialect is found by the upper case of a name, and upper case is that of the whole character set.
Besides the letters of ASCII there are four more that it makes into letters of these names: the long
s, the sharp s and the two ligatures of s and t. A name that is spelled with them names the dialect
as well; any other character beyond ASCII leaves something in the upper case that no dialect's name
holds.
-/
namespace CssHighlight

namespace Dialect

/-- The letters beyond ASCII that stand for letters of the dialects' names. -/
def ligatures : List (Char × List Char) :=
  [('ſ', ['s']), ('ß', ['s', 's']), ('ﬅ', ['s', 't']), ('ﬆ', ['s', 't'])]

/-- The letters that a character stands for. -/
def spelledOut (c : Char) : List Char :=
  (ligatures.lookup c).getD [c]

/-- A label names a dialect: without the blanks around it, and with its ligatures spelled out, it is
the dialect's label up to the case of ASCII letters. -/
def NamedBy (label : String) (d : Dialect) : Prop :=
  SameLetters ((Text.trim label).toList.flatMap spelledOut) d.label.toList

instance (label : String) (d : Dialect) : Decidable (NamedBy label d) :=
  inferInstanceAs (Decidable (SameLetters _ _))

/-! ### Upper case of one character -/

variable {c : Char}

/-- On ASCII upper case is that of the letters, and lower case undoes it. -/
theorem ascii_case (ascii : c.toNat < 0x80) :
    Text.upperChar c = [c.toUpper] ∧ c.toUpper.toLower = c.toLower ∧
      c.toLower.toUpper = c.toUpper := by
  have table : ∀ code < 0x80,
      Text.upperChar (Char.ofNat code) = [(Char.ofNat code).toUpper] ∧
        (Char.ofNat code).toUpper.toLower = (Char.ofNat code).toLower ∧
          (Char.ofNat code).toLower.toUpper = (Char.ofNat code).toUpper := by
    decide +kernel
  have entry := table c.toNat ascii
  rwa [Char.ofNat_toNat] at entry

theorem ascii_of_toLower (ascii : c.toLower.toNat < 0x80) : c.toNat < 0x80 := by
  by_contra beyond
  rw [toLower_eq_self beyond] at ascii
  exact beyond ascii

/-- The characters that can stand in the name of a dialect: those of ASCII, and the ligatures. -/
def Spells (c : Char) : Prop :=
  c.toNat < 0x80 ∨ c ∈ ligatures.map Prod.fst

theorem spelledOut_eq_self (other : c ∉ ligatures.map Prod.fst) : spelledOut c = [c] := by
  have missing : ligatures.lookup c = none := by
    rw [List.lookup_eq_none_iff]
    intro entry member
    exact bne_iff_ne.mpr fun same => other (same ▸ List.mem_map_of_mem member)
  rw [spelledOut, missing]
  rfl

theorem spelledOut_ascii (ascii : c.toNat < 0x80) : spelledOut c = [c] := by
  have beyond : ∀ entry ∈ ligatures, 0x80 ≤ entry.1.toNat := by decide
  apply spelledOut_eq_self
  intro ligature
  obtain ⟨entry, member, rfl⟩ := List.mem_map.mp ligature
  exact Nat.not_lt.mpr (beyond entry member) ascii

/-- Upper case of such a character is that of the letters it stands for. -/
theorem Spells.upperChar (spells : Spells c) :
    Text.upperChar c = (spelledOut c).map Char.toUpper := by
  rcases spells with ascii | ligature
  · rw [spelledOut_ascii ascii, (ascii_case ascii).1]
    rfl
  · have table : ∀ entry ∈ ligatures,
        Text.upperChar entry.1 = (spelledOut entry.1).map Char.toUpper := by
      decide +kernel
    obtain ⟨entry, member, rfl⟩ := List.mem_map.mp ligature
    exact table entry member

theorem Spells.ascii (spells : Spells c) : ∀ x ∈ spelledOut c, x.toNat < 0x80 := by
  rcases spells with ascii | ligature
  · rw [spelledOut_ascii ascii]
    intro x member
    rwa [List.mem_singleton.mp member]
  · have table : ∀ entry ∈ ligatures, (spelledOut entry.1).all (·.toNat < 0x80) = true := by
      decide
    obtain ⟨entry, member, rfl⟩ := List.mem_map.mp ligature
    simpa using table entry member

/-- A character that stands for ASCII letters only is one of them. -/
theorem spells_of_ascii (ascii : ∀ x ∈ spelledOut c, x.toNat < 0x80) : Spells c := by
  by_cases ligature : c ∈ ligatures.map Prod.fst
  · exact .inr ligature
  · rw [spelledOut_eq_self ligature] at ascii
    exact .inl (ascii c (List.mem_singleton_self c))

/-- The capital letters of the dialects' names. -/
def nameLetters : List Char :=
  all.flatMap fun d => d.name.toList

theorem ofNat_not_mem_nameLetters {code : Nat} (beyond : 0x80 ≤ code) :
    Char.ofNat code ∉ nameLetters := by
  have letters : ∀ letter ∈ nameLetters.map Char.toNat, letter < 0x80 := by decide
  intro member
  by_cases valid : code.isValidChar
  · have kept : (Char.ofNat code).toNat = code := by
      rw [Char.ofNat, dif_pos valid]
      rfl
    have letter := letters _ (List.mem_map_of_mem member)
    omega
  · rw [Char.ofNat, dif_neg valid] at member
    revert member
    decide

/-- What the rules of upper case make of a character beyond ASCII is in no name, with the exception
of the long s. -/
theorem ofNat_rule_not_mem {code : Nat} (beyond : 0x80 ≤ c.toNat)
    (other : c ∉ ligatures.map Prod.fst)
    (image : Text.CaseRule.apply? Text.upperRules c.toNat = some code) :
    Char.ofNat code ∉ nameLetters := by
  have table : ∀ rule ∈ Text.upperRules, rule.last < 0x80 ∨ 0x80 ≤ rule.image ∨
      rule.first = rule.last ∧ (Char.ofNat rule.first ∈ ligatures.map Prod.fst ∨
        Char.ofNat rule.image ∉ nameLetters) := by
    decide +kernel
  unfold Text.CaseRule.apply? at image
  obtain ⟨rule, found, rfl⟩ := Option.map_eq_some_iff.mp image
  have covers := List.find?_some found
  simp only [Bool.and_eq_true, decide_eq_true_eq] at covers
  rcases table rule (List.mem_of_find?_eq_some found) with low | high | ⟨single, ligature | letter⟩
  · omega
  · exact ofNat_not_mem_nameLetters (Nat.le_add_right_of_le high)
  · have same : c.toNat = rule.first := by omega
    rw [← same, Char.ofNat_toNat] at ligature
    exact absurd ligature other
  · have same : c.toNat - rule.first = 0 := by omega
    rwa [same]

/-- The upper case of any other character holds something that is in no name. -/
theorem exists_mem_upperChar (alien : ¬Spells c) :
    ∃ x ∈ Text.upperChar c, x ∉ nameLetters := by
  obtain ⟨beyond, other⟩ := not_or.mp alien
  have expanded : ∀ entry ∈ Text.upperExpansions,
      Char.ofNat entry.1 ∈ ligatures.map Prod.fst ∨
        ∃ code ∈ entry.2, Char.ofNat code ∉ nameLetters := by
    decide +kernel
  unfold Text.upperChar
  rw [if_neg beyond]
  split
  next codes found =>
    -- A letter with a longer image.
    have member : (c.toNat, codes) ∈ Text.upperExpansions := by
      obtain ⟨front, behind, cut, -⟩ := List.lookup_eq_some_iff.mp found
      rw [cut]
      exact List.mem_append_right front List.mem_cons_self
    rcases expanded _ member with ligature | stranger
    · rw [Char.ofNat_toNat] at ligature
      exact absurd ligature other
    · obtain ⟨code, image, stranger⟩ := stranger
      exact ⟨_, List.mem_map_of_mem image, stranger⟩
  next =>
    split
    next code image =>
      have stranger := ofNat_rule_not_mem (Nat.le_of_not_lt beyond) other image
      exact ⟨_, List.mem_singleton_self _, stranger⟩
    next =>
      -- A character that stays as it is.
      refine ⟨c, List.mem_singleton_self c, ?_⟩
      have stranger := ofNat_not_mem_nameLetters (Nat.le_of_not_lt beyond)
      rwa [Char.ofNat_toNat] at stranger

/-! ### Upper case of a name -/

variable {text : List Char} {d : Dialect}

theorem toUpper_flatMap_spelledOut (spells : ∀ c ∈ text, Spells c) :
    text.flatMap Text.upperChar = (text.flatMap spelledOut).map Char.toUpper := by
  rw [List.map_flatMap]
  exact List.flatMap_congr fun c member => (spells c member).upperChar

/-- Upper case makes a text into the name of a dialect when the text, spelled out, is its label. -/
theorem upperChars_eq_name_iff :
    text.flatMap Text.upperChar = d.name.toList ↔
      SameLetters (text.flatMap spelledOut) d.label.toList := by
  have lowered : d.name.toList.map Char.toLower = d.label.toList.map Char.toLower := by
    cases d <;> decide +kernel
  have capitals : (d.label.toList.map Char.toLower).map Char.toUpper = d.name.toList := by
    cases d <;> decide +kernel
  constructor
  · intro named
    -- Any other character would leave its trace in the name.
    have spells : ∀ c ∈ text, Spells c := by
      intro c member
      by_contra alien
      obtain ⟨x, image, stranger⟩ := exists_mem_upperChar alien
      have letter : x ∈ d.name.toList := named ▸ List.mem_flatMap.mpr ⟨c, member, image⟩
      exact stranger (List.mem_flatMap.mpr ⟨d, by cases d <;> decide, letter⟩)
    have ascii : ∀ x ∈ text.flatMap spelledOut, x.toNat < 0x80 := by
      intro x member
      obtain ⟨c, inText, inLetters⟩ := List.mem_flatMap.mp member
      exact (spells c inText).ascii x inLetters
    rw [SameLetters, ← lowered, ← named, toUpper_flatMap_spelledOut spells, List.map_map]
    exact List.map_congr_left fun x member => ((ascii_case (ascii x member)).2.1).symm
  · intro same
    -- What the text is spelled out to are ASCII letters, as those of the label are.
    have letters :
        ∀ letter ∈ (d.label.toList.map Char.toLower).map Char.toNat, letter < 0x80 := by
      cases d <;> decide +kernel
    have ascii : ∀ x ∈ text.flatMap spelledOut, x.toNat < 0x80 := by
      intro x member
      have lower : x.toLower ∈ d.label.toList.map Char.toLower :=
        same ▸ List.mem_map_of_mem member
      exact ascii_of_toLower (letters _ (List.mem_map_of_mem lower))
    have spells : ∀ c ∈ text, Spells c := by
      intro c member
      apply spells_of_ascii
      intro x inLetters
      exact ascii x (List.mem_flatMap.mpr ⟨c, member, inLetters⟩)
    rw [toUpper_flatMap_spelledOut spells, ← capitals, ← same, List.map_map]
    exact List.map_congr_left fun x member => ((ascii_case (ascii x member)).2.2).symm

theorem find?_name_iff {sought : String} :
    all.find? (·.name == sought) = some d ↔ d.name = sought := by
  constructor
  · intro found
    have named := List.find?_some found
    exact beq_iff_eq.mp named
  · rintro rfl
    cases d <;> simp [all, name]

theorem ofLabel?_eq_some_iff {label : String} : ofLabel? label = some d ↔ NamedBy label d := by
  unfold ofLabel? NamedBy
  generalize Text.trim label = named
  rw [find?_name_iff, ← upperChars_eq_name_iff, Text.upper, ← String.toList_inj,
    String.toList_ofList]
  exact eq_comm

theorem ofLabel?_eq_none_iff {label : String} :
    ofLabel? label = none ↔ ∀ d, ¬NamedBy label d := by
  simp only [Option.eq_none_iff_forall_ne_some, ne_eq, ofLabel?_eq_some_iff]

/-- A label names one dialect at most. -/
theorem NamedBy.unique {label : String} {d' : Dialect} (named : NamedBy label d)
    (named' : NamedBy label d') : d = d' := by
  rw [← ofLabel?_eq_some_iff] at named named'
  exact Option.some.inj (named.symm.trans named')

end Dialect

namespace Config

variable {config : Config} {label : String} {d : Dialect}

theorem chosenDialect_of_namedBy (named : Dialect.NamedBy label d) (fallback : Dialect) :
    chosenDialect { config with dialect := .str label } fallback = .ok d := by
  have found := Dialect.ofLabel?_eq_some_iff.mpr named
  simp only [chosenDialect, found]

theorem chosenDialect_of_unnamed (unnamed : ∀ d, ¬Dialect.NamedBy label d) (fallback : Dialect) :
    chosenDialect { config with dialect := .str label } fallback =
      .error (.unknownDialect label) := by
  have missing := Dialect.ofLabel?_eq_none_iff.mpr unnamed
  simp only [chosenDialect, missing]

/-- Where the other settings are valid, a configuration is as valid as its dialect. -/
theorem validate_eq_chosenDialect
    (others : validate { config with dialect := .null } = .ok ()) (dialect : Value) :
    validate { config with dialect := dialect } =
      (chosenDialect { config with dialect := dialect } .standard).map fun _ => () := by
  -- The other checks do not look at the dialect.
  have checks (dialect : Value) : settings { config with dialect := dialect } .standard = (do
      let d ← chosenDialect { config with dialect := dialect } .standard
      let fold ← config.checkedFold
      let keywordsFile ← config.checkedKeywordsFile
      let maxFileSize ← config.checkedMaxFileSize
      return ⟨d, fold, keywordsFile, maxFileSize⟩) := rfl
  rw [validate, checks] at others ⊢
  cases fold : config.checkedFold with
  | error =>
    rw [fold] at others
    cases others
  | ok =>
    cases keywordsFile : config.checkedKeywordsFile with
    | error =>
      rw [fold, keywordsFile] at others
      cases others
    | ok =>
      cases maxFileSize : config.checkedMaxFileSize with
      | error =>
        rw [fold, keywordsFile, maxFileSize] at others
        cases others
      | ok => cases chosenDialect { config with dialect := dialect } .standard <;> rfl

/-- A name in the place of a configuration's dialect yields the dialect that it names, and is
reported when it names none. Where the other settings are valid, the configuration is accepted just
with the name of a dialect. -/
theorem normalize_named (config : Config) (fallback : Dialect) (label : String) :
    let named : Config := { config with dialect := .str label }
    (∀ result, named.normalize fallback = .ok result ↔
      ∃ d, Dialect.NamedBy label d ∧ result = { config with dialect := .dialect d }) ∧
    (∀ e, named.normalize fallback = .error e ↔
      (∀ d, ¬Dialect.NamedBy label d) ∧ e = .unknownDialect label) ∧
    (validate { config with dialect := .null } = .ok () →
      (named.validate = .ok () ↔ ∃ d, Dialect.NamedBy label d) ∧
      ∀ e, named.validate = .error e ↔
        (∀ d, ¬Dialect.NamedBy label d) ∧ e = .unknownDialect label) := by
  intro named
  by_cases known : ∃ d, Dialect.NamedBy label d
  · obtain ⟨d, names⟩ := known
    have normal : named.normalize fallback = .ok { config with dialect := .dialect d } := by
      rw [normalize, chosenDialect_of_namedBy names]
      rfl
    refine ⟨?_, ?_, ?_⟩
    · intro result
      rw [normal, Except.ok.injEq]
      constructor
      · rintro rfl
        exact ⟨d, names, rfl⟩
      · rintro ⟨d', names', rfl⟩
        rw [names.unique names']
    · intro e
      rw [normal]
      exact iff_of_false nofun fun unnamed => unnamed.1 d names
    · intro others
      have valid : named.validate = .ok () := by
        rw [validate_eq_chosenDialect others, chosenDialect_of_namedBy names]
        rfl
      refine ⟨iff_of_true valid ⟨d, names⟩, ?_⟩
      intro e
      rw [valid]
      exact iff_of_false nofun fun unnamed => unnamed.1 d names
  · have unnamed : ∀ d, ¬Dialect.NamedBy label d := not_exists.mp known
    have reported : named.normalize fallback = .error (.unknownDialect label) := by
      rw [normalize, chosenDialect_of_unnamed unnamed]
      rfl
    refine ⟨?_, ?_, ?_⟩
    · intro result
      rw [reported]
      exact iff_of_false nofun fun ⟨d, names, _⟩ => unnamed d names
    · intro e
      rw [reported, Except.error.injEq, eq_comm]
      exact (and_iff_right unnamed).symm
    · intro others
      have invalid : named.validate = .error (.unknownDialect label) := by
        rw [validate_eq_chosenDialect others, chosenDialect_of_unnamed unnamed]
        rfl
      rw [invalid]
      refine ⟨iff_of_false nofun known, ?_⟩
      intro e
      rw [Except.error.injEq, eq_comm]
      exact (and_iff_right unnamed).symm

/-- Blanks around a name, its case and its ligatures do not matter. -/
theorem normalize_named_ligature :
    let named : Config := { dialect := .str " ﬅandarD\t" }
    named.normalize .less = .ok { dialect := .dialect .standard } ∧
      validate { named with dialect := .null } = .ok () ∧ named.validate = .ok () := by
  intro named
  have names : Dialect.NamedBy " ﬅandarD\t" .standard := by decide +kernel
  have others : validate { named with dialect := .null } = .ok () := by rfl
  obtain ⟨normal, -, valid⟩ := normalize_named named .less " ﬅandarD\t"
  exact ⟨(normal _).mpr ⟨.standard, names, rfl⟩, others, (valid others).1.mpr ⟨.standard, names⟩⟩

/-- The case of ASCII letters is not all that does not matter in a name: a sharp s stands for two of
them. -/
theorem sharp_s_names_less :
    let named : Config := { dialect := .str "leß" }
    named.normalize .standard = .ok { dialect := .dialect .less } ∧ named.validate = .ok () ∧
      ∀ d : Dialect, ¬SameLetters (Text.trim "leß").toList d.label.toList := by
  intro named
  have found : Dialect.ofLabel? "leß" = some .less := by decide +kernel
  refine ⟨?_, ?_, ?_⟩
  · rw [normalize, chosenDialect]
    simp only [named, found]
    rfl
  · rw [validate, settings, chosenDialect]
    simp only [named, found]
    rfl
  · intro d
    cases d <;> decide +kernel

end Config

end CssHighlight
