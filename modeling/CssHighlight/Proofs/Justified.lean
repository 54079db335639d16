import CssHighlight.Proofs.InPlace
import CssHighlight.Proofs.NameRuns

/-!
# Styles that tell about the text

Some styles are given to a name only because of what stands around it: the styles of classes, of
identities, of placeholders and of the word `important` tell what stands in front, that of a
function what stands behind, and that of an unknown property both. What they tell can be read off
the text as it is styled in the end, although the name was classified while the text was read.
-/
namespace CssHighlight

/-- Which character is found looking back depends only on which styles count as blanks. -/
theorem lookBehind_fst_of_map {styles styles' : List Style}
    (same : styles.map Style.isSpace = styles'.map Style.isSpace) (seen : List Char) :
    (lookBehind seen styles).1 = (lookBehind seen styles').1 := by
  induction seen generalizing styles styles' with
  | nil => rfl
  | cons c seen ih =>
    cases styles with
    | nil =>
      obtain rfl : styles' = [] := by simpa using same.symm
      rfl
    | cons style styles =>
      cases styles' with
      | nil => cases same
      | cons style' styles' =>
        obtain ⟨first, others⟩ := List.cons.inj same
        cases space : style.isSpace with
        | true =>
          rw [lookBehind_space space, lookBehind_space (first ▸ space)]
          exact ih others
        | false => rw [lookBehind_solid space, lookBehind_solid (first ▸ space)]

namespace Document

open Machine

/-- Looking back from a position finds the character. -/
def LooksBackTo (d : Document) (position : Nat) (c : Char) : Prop :=
  ∃ style, d.lookBack position = .ok (some c, style)

/-- A run of one style that goes on neither in front nor behind. -/
structure MaximalRun (d : Document) (start stop : Nat) (style : Style) : Prop where
  nonempty : start < stop
  inside : ∀ i, start ≤ i → i < stop → d.styles[i]? = some style
  front : ∀ i, i + 1 = start → d.styles[i]? ≠ some style
  behind : d.styles[stop]? ≠ some style

/-- What the style of a run tells about the styled text around it. -/
def Justifies (d : Document) (dialect : Dialect) (start stop : Nat) : Style → Prop
  | .className => d.LooksBackTo start '.'
  | .idName => d.LooksBackTo start '#'
  | .important =>
    d.LooksBackTo start '!' ∧
      Text.lowerChars ((d.text.take stop).drop start) = "important".toList
  | .placeholder => d.LooksBackTo start '%' ∧ dialect = .scss
  | .function => d.charAt stop = some '('
  | .unknownProperty =>
    (d.LooksBackTo start ';' ∨ d.LooksBackTo start '{') ∧
      nextSolid (d.text.drop stop) = some ':'
  | _ => True

theorem justifies_of_not_isTelling (d : Document) (dialect : Dialect) (start stop : Nat)
    {style : Style} (plain : style.isTelling = false) : d.Justifies dialect start stop style := by
  revert plain
  cases style <;> simp [Style.isTelling, Justifies]

variable {o : ScanOptions} {d : Document} {start stop : Nat} {style : Style}

theorem ScannedTo.styles_eq (full : d.ScannedTo o d.text.length) :
    d.styles = (scanned o d.text.length d.text).latest.reverse := by
  rw [← Machine.styles_eq, ← full.styles_take, List.take_of_length_le (Nat.le_of_eq full.styles)]

/-- Looking back over a styled text finds what the scanner knew at that place. -/
theorem ScannedTo.lookBack_eq_lastChar (full : d.ScannedTo o d.text.length)
    (le : start ≤ d.text.length) :
    ∃ style, d.lookBack start = .ok ((scanned o start d.text).context.lastChar, style) := by
  -- Names get other styles later, but none that counts as a blank.
  have settled := lasting_scanned lasting_isSpace (o := o) le d.text
  have size := length_latest_scanned (o := o) le
  have whole := length_latest_scanned (o := o) (Nat.le_refl d.text.length)
  have same : (d.styles.take start).reverse.map Style.isSpace =
      (scanned o start d.text).latest.map Style.isSpace := by
    rw [List.suffix_iff_eq_drop.mp settled, List.length_map, List.length_map, whole, size,
      List.reverse_take, full.styles, full.styles_eq, List.reverse_reverse, List.map_drop]
  have known := (steady_scanned o start d.text).behind
  refine ⟨(lookBehind (d.text.take start).reverse (d.styles.take start).reverse).2, ?_⟩
  rw [lookBack_eq le, lastSignificant_eq d le full.styles]
  refine congrArg Except.ok (Prod.ext ?_ rfl)
  rw [lookBehind_fst_of_map same, known]

/-- What a name was classified by can be read off the styled text. -/
theorem ScannedTo.justifies (full : d.ScannedTo o d.text.length)
    (run : NamedRun o d.text start stop style) : d.Justifies o.dialect start stop style := by
  obtain ⟨c, rest, ahead, -, same⟩ := run.ends
  have told := (Context.classifyName_told (scanned o stop d.text).runName
    ⟨some c, nextSolid (if c = '(' then rest else c :: rest), o.dialect, o.keywords⟩
    (scanned o stop d.text).context).tells
  rw [← nameStyle, ← same] at told
  have inside : start ≤ d.text.length := by
    have reach := run.length
    have below := run.stop_lt
    omega
  obtain ⟨last, back⟩ := full.lookBack_eq_lastChar inside
  have looksBack {x : Char} (noted : (scanned o stop d.text).context.before = some x) :
      d.LooksBackTo start x := ⟨last, by rw [back, ← run.before_eq, noted]⟩
  cases style with
  | className | idName => exact looksBack told
  | placeholder => exact ⟨looksBack told.1, told.2⟩
  | important =>
    obtain ⟨mark, word⟩ := told
    -- A name that is too long to be looked up is no word at all.
    refine ⟨looksBack mark, ?_⟩
    rw [run.runName_eq] at word
    split at word
    · exact String.ofList_injective (Option.some.inj word)
    · cases word
  | function =>
    have opens : some c = some '(' := told
    have first : d.text[stop]? = some c := by rw [← List.head?_drop, ahead, List.head?_cons]
    exact (if_pos (Int.natCast_nonneg stop)).trans (first.trans opens)
  | unknownProperty =>
    obtain ⟨goesOn, next, mark⟩ := told
    -- Only a parenthesis is passed over by what looks ahead.
    rw [if_neg fun same => goesOn (congrArg some same), ← ahead] at next
    exact ⟨mark.imp looksBack looksBack, next⟩
  | _ => trivial

/-- A maximal run of a telling style is one name. Two names do not touch, since the character that
ends a name belongs to none. -/
theorem ScannedTo.namedRun (full : d.ScannedTo o d.text.length)
    (run : d.MaximalRun start stop style) (telling : style.isTelling = true) :
    NamedRun o d.text start stop style := by
  have named {i : Nat} (le : start ≤ i) (lt : i < stop) :
      ∃ start' stop', start' ≤ i ∧ i < stop' ∧ NamedRun o d.text start' stop' style ∧
        ∀ k, start' ≤ k → k < stop' → d.styles[k]? = some style := by
    have found := run.inside i le lt
    rw [full.styles_eq] at found ⊢
    exact explained_scanned o d.text i style found telling
  -- The first position lies in a name, which is not longer than the run on either side.
  obtain ⟨start', stop', le, lt, first, styled⟩ := named (Nat.le_refl start) run.nonempty
  have sameStart : start' = start := by
    refine Nat.le_antisymm le (Nat.le_of_not_lt fun before => ?_)
    exact run.front (start - 1) (by omega) (styled _ (by omega) (by omega))
  have upTo : stop' ≤ stop :=
    Nat.le_of_not_lt fun beyond => run.behind (styled stop (by have := run.nonempty; omega) beyond)
  subst sameStart
  -- If it were shorter, the character that ends it would lie in another name.
  rcases Nat.lt_or_eq_of_le upTo with short | rfl
  · obtain ⟨_, _, le, lt, second, -⟩ := named (Nat.le_of_lt lt) short
    obtain ⟨c, rest, ahead, ends, -⟩ := first.ends
    have inside := second.isRunChar_of_inside le lt (c := c)
      (by rw [← List.head?_drop, ahead, List.head?_cons])
    rw [ends] at inside
    cases inside
  · exact first

variable {p : Place} {s : ScanSetup}

/-- In a scanned text every maximal run of one style stands where its style says it does: a class
behind a point, an identity behind a hash, the word `important` behind an exclamation mark, a
placeholder of SCSS behind a percent sign, a function in front of a parenthesis, and an unknown
property between the beginning of a declaration and a colon. -/
theorem scanAll_justified (options : s.options p = .ok o) (text : List Char) :
    ∃ d r, (ofChars text).scanAll p s = .ok (d, r) ∧ d.text = text ∧
      ∀ start stop style, d.MaximalRun start stop style →
        d.Justifies o.dialect start stop style := by
  obtain ⟨d, r, scanned, same, full⟩ := scannedTo_scanAll options text
  refine ⟨d, r, scanned, same, fun start stop style run => ?_⟩
  cases telling : style.isTelling with
  | true => exact full.justifies (full.namedRun run telling)
  | false => exact justifies_of_not_isTelling d o.dialect start stop telling

/-- Where no property is known, a name between the brace of its block and a colon is an unknown one,
also behind a comment. -/
theorem scanAll_justified_declaration :
    ∃ d r, (ofChars ['a', '{', '/', '*', ' ', '*', '/', 'b', ' ', ':', 'c', '}']).scanAll default
        { keywords := some default } = .ok (d, r) ∧
      d.MaximalRun 7 8 .unknownProperty ∧ (d.LooksBackTo 7 ';' ∨ d.LooksBackTo 7 '{') ∧
        nextSolid (d.text.drop 8) = some ':' := by
  have options : ScanSetup.options default { keywords := some default } =
      .ok ⟨.standard, true, default⟩ := rfl
  obtain ⟨d, r, scanned, -, justified⟩ :=
    scanAll_justified options ['a', '{', '/', '*', ' ', '*', '/', 'b', ' ', ':', 'c', '}']
  obtain ⟨text, full⟩ := scannedTo_of_scanAll options scanned
  have styles : d.styles = [.tag, .operator, .blockComment, .blockComment, .blockComment,
      .blockComment, .blockComment, .unknownProperty, .default, .operator, .value, .operator] := by
    rw [full.styles_eq, text]
    decide +kernel
  have run : d.MaximalRun 7 8 .unknownProperty := by
    refine ⟨by decide, fun i le lt => ?inside, fun i next => ?front, ?behind⟩ <;> rw [styles]
    case inside =>
      obtain rfl : i = 7 := by omega
      rfl
    case front =>
      obtain rfl : i = 6 := by omega
      decide
    case behind => decide
  exact ⟨d, r, scanned, run, justified 7 8 .unknownProperty run⟩

end Document

end CssHighlight
