import CssHighlight.Proofs.Between
import CssHighlight.Proofs.Sheet
import CssHighlight.Proofs.Variants

/-!
# Styles of nested rules

Every piece of a sheet gets its style, however deep the rules are nested. Each piece leads from one
kind of spot to the next, and what a spot asks for is all that the rules ask at the piece behind it.
-/
namespace CssHighlight

open Sheet

namespace Machine

variable {o : ScanOptions} {c : Char} {rest : List Char} {m : Machine} {inValue : Bool}
  {lastChar : Option Char} {lastStyle : Style}

/-! ### What is read of a sheet -/

/-- From every machine of which `p` holds, the pieces in front of `rest` are read in their styles,
up to a machine of which `q` holds. -/
def Reads (o : ScanOptions) (p : Machine → Prop) (pieces : List Piece) (rest : List Char)
    (q : Machine → Prop) : Prop :=
  ∀ m, p m → ∃ m', q m' ∧ m'.latest = (stylesOf o.keywords pieces).reverse ++ m.latest ∧
    m.toEnd o (textOf pieces ++ rest) = m'.toEnd o rest

namespace Reads

variable {p q r : Machine → Prop} {pieces pieces' : List Piece} {piece : Piece}

theorem nil (o : ScanOptions) (p : Machine → Prop) (rest : List Char) : Reads o p [] rest p :=
  fun m h => ⟨m, h, rfl, rfl⟩

theorem append (h : Reads o p pieces (textOf pieces' ++ rest) q) (h' : Reads o q pieces' rest r) :
    Reads o p (pieces ++ pieces') rest r := by
  intro m start
  obtain ⟨m₁, middle, latest, same⟩ := h m start
  obtain ⟨m₂, stop, latest', same'⟩ := h' m₁ middle
  refine ⟨m₂, stop, ?_, ?_⟩
  · simp only [latest', latest, stylesOf, List.flatMap_append, List.reverse_append,
      List.append_assoc]
  · rw [← same', ← same, textOf, List.flatMap_append, List.append_assoc]
    rfl

theorem cons (h : Reads o p [piece] (textOf pieces ++ rest) q) (h' : Reads o q pieces rest r) :
    Reads o p (piece :: pieces) rest r :=
  append h h'

theorem weaken {p' : Machine → Prop} (h : Reads o p pieces rest q) (weaker : ∀ m, p' m → p m) :
    Reads o p' pieces rest q :=
  fun m start => h m (weaker m start)

end Reads

/-! ### The text behind a name -/

/-- Characters behind which a name may end. -/
def endsName (c : Char) : Bool :=
  isSeparator c || c == '{' || c == ':' || c == ';'

theorem of_endsName (ends : endsName c = true) : isRunChar c = false ∧ c ≠ '(' ∧ c ≠ '+' := by
  have cases : isSeparator c = true ∨ c = '{' ∨ c = ':' ∨ c = ';' := by
    simpa [endsName, or_assoc] using ends
  rcases cases with blank | rfl | rfl | rfl
  · rcases separator_cases blank with rfl | rfl | rfl | rfl | rfl | rfl <;> decide
  all_goals decide

theorem nextSolid_blanks (blanks : Blanks) (solid : isSeparator c = false) (rest : List Char) :
    nextSolid (blanks.chars ++ c :: rest) = some c := by
  have none : blanks.chars.find? (fun c => !isSeparator c) = none := by
    simpa using blanks.blank
  simp [nextSolid, List.find?_append, none, solid]

theorem endsName_blanks (blanks : Blanks) (ends : endsName c = true) (rest : List Char) :
    (blanks.chars ++ c :: rest).head?.any endsName = true := by
  obtain ⟨chars, blank⟩ := blanks
  cases chars with
  | nil => exact ends
  | cons x chars => simp [endsName, blank x (by simp)]

theorem endsName_moreValues (more : List (Gap × Name)) (blanks : Blanks) (rest : List Char) :
    (textOf (gapsAndNames more) ++ (blanks.chars ++ ';' :: rest)).head?.any endsName = true := by
  cases more with
  | nil => exact endsName_blanks blanks rfl rest
  | cons more others =>
    obtain ⟨⟨⟨chars, blank⟩, wide⟩, name⟩ := more
    cases chars with
    | nil => exact absurd rfl wide
    | cons x chars => simp [gapsAndNames, textOf, Blanks.piece, endsName, blank x (by simp)]

theorem head_blanks_name (blanks : Blanks) (name : Name) (rest : List Char) :
    (blanks.chars ++ (name.chars ++ rest)).head? ≠ some ':' := by
  obtain ⟨chars, blank⟩ := blanks
  cases chars with
  | nil =>
    have run := isRunChar_of_isNameStart name.starts
    simpa [Name.chars] using ne_of_isRunChar run (x := ':') rfl
  | cons x chars =>
    have separates : isSeparator x = true := blank x (by simp)
    have other : x ≠ ':' := by
      rintro rfl
      cases separates
    simpa using other

/-! ### Spots of a sheet -/

/-- What is asked of a spot between two pieces: whether a value has begun, the last solid character
and its style. -/
abbrev Spot := Bool → Option Char → Style → Prop

namespace Spot

def anywhere : Spot := fun _ _ _ => True

/-- In front of a rule, which may follow anything that ends with a mark or stand first. -/
def rule : Spot := fun inValue last _ =>
  inValue = false ∧ (last.all fun c => c == '{' || c == '}' || c == ';') = true

/-- In front of a declaration, which follows an opening brace or another declaration. -/
def declaration : Spot := fun inValue last _ =>
  inValue = false ∧ (last = some '{' ∨ last = some ';')

/-- In front of the colon of a declaration. -/
def colon : Spot := fun inValue _ style => inValue = true ∧ style.isProperty = true

/-- In a declaration's value. -/
def value : Spot := fun inValue last _ => inValue = true ∧ last ≠ some '!'

end Spot

/-- A machine that stands at such a spot. -/
def At (o : ScanOptions) (spot : Spot) (m : Machine) : Prop :=
  ∃ inValue lastChar lastStyle, spot inValue lastChar lastStyle ∧
    Between o inValue lastChar lastStyle m

theorem At.rule_of_declaration (h : At o .declaration m) : At o .rule m := by
  obtain ⟨inValue, last, style, ⟨off, mark⟩, between⟩ := h
  refine ⟨inValue, last, style, ⟨off, ?_⟩, between⟩
  rcases mark with rfl | rfl <;> rfl

theorem reads_blanks (blanks : Blanks) (spot : Spot) (rest : List Char) :
    Reads o (At o spot) [blanks.piece] rest (At o spot) := by
  obtain ⟨chars, blank⟩ := blanks
  simp only [Blanks.piece]
  induction chars with
  | nil => exact fun m h => ⟨m, h, rfl, rfl⟩
  | cons c chars ih =>
    obtain ⟨first, others⟩ := List.forall_mem_cons.mp blank
    intro m ⟨inValue, last, style, holds, between⟩
    obtain ⟨stepped, latest⟩ := between.step_blank first (textOf [⟨.blank, chars⟩] ++ rest)
    obtain ⟨m', there, latest', same⟩ := ih others _ ⟨inValue, last, style, holds, stepped⟩
    refine ⟨m', there, ?_, same⟩
    rw [latest', latest]
    simp only [stylesOf, List.flatMap_singleton, List.map_cons, List.reverse_cons,
      List.append_assoc, List.singleton_append]
    rfl

/-- A mark is read in one step, and decides what stands behind it. -/
theorem reads_mark (mark : c = '{' ∨ c = '}' ∨ c = ';') {spot behind : Spot}
    (holds : behind false (some c) .operator) (rest : List Char) :
    Reads o (At o spot) [Sheet.mark c] rest (At o behind) := by
  intro m ⟨_, _, _, _, between⟩
  obtain ⟨stepped, latest⟩ := between.step_mark mark rest
  exact ⟨m.step o c rest, ⟨false, some c, .operator, holds, stepped⟩, latest, rfl⟩

theorem reads_colon {rest : List Char} (next : rest.head? ≠ some ':') :
    Reads o (At o .colon) [Sheet.mark ':'] rest (At o .value) := by
  intro m ⟨inValue, _, _, ⟨on, property⟩, between⟩
  obtain ⟨stepped, latest⟩ := between.step_colon next property
  exact ⟨m.step o ':' rest, ⟨inValue, some ':', .operator, ⟨on, by decide⟩, stepped⟩, latest, rfl⟩

/-! ### The names of a sheet -/

/-- A name is read in the style that it gets at its end. -/
theorem reads_name (name : Name) (role : Role) (goesOn : Bool) {text : List Char}
    (ends : text.head?.any endsName = true)
    (classified : ∀ (e : RunEnd) (x : Context), e.stop ≠ some '(' → e.next = nextSolid text →
      e.keywords = o.keywords → x.before = lastChar → x.Flat inValue x.lastChar .identifier →
      classifyName (keyword name.chars) e x =
        ((name.piece role).style o.keywords, { x with inValue := goesOn })) :
    Reads o (Between o inValue lastChar lastStyle) [name.piece role] text fun m =>
      ∃ c, isRunChar c = true ∧
        Between o goesOn (some c) ((name.piece role).style o.keywords) m := by
  cases text with
  | nil => cases ends
  | cons c rest =>
    obtain ⟨stops, plain, sign⟩ := of_endsName ends
    intro m h
    -- Not even a single letter is followed by a plus sign, as in a unicode range.
    have next : (name.others ++ c :: rest).head? ≠ some '+' := by
      cases others : name.others with
      | nil => simpa using sign
      | cons x others =>
        have run : isRunChar x = true := name.goesOn x (by simp [others])
        simpa using ne_of_isRunChar run (x := '+') rfl
    obtain ⟨m₁, named, same⟩ := (h.startName name.starts next).run name.goesOn
    obtain ⟨m₂, between, latest, same'⟩ := named.close stops plain
      (classified _ _ (by simpa using plain) rfl rfl named.before named.context)
    cases last : m₁.context.lastChar with
    | none =>
      have solid := named.lastChar
      rw [last] at solid
      cases solid
    | some x =>
      have solid := named.lastChar
      rw [last] at solid between
      refine ⟨m₂, ⟨x, solid, between⟩, ?_, ?_⟩
      · simp only [latest, stylesOf, List.flatMap_singleton, List.map_const',
          List.reverse_replicate]
        rfl
      · rw [← same', ← same]
        simp [textOf, Name.piece, Name.chars, toEnd]

theorem reads_ruleName (name : Name) (blanks : Blanks) (rest : List Char) :
    Reads o (At o .rule) [name.piece .ruleName] (blanks.chars ++ '{' :: rest)
      (At o .anywhere) := by
  intro m ⟨_, last, style, ⟨rfl, mark⟩, between⟩
  obtain ⟨m', ⟨c, -, named⟩, written⟩ := reads_name name .ruleName false
    (endsName_blanks blanks rfl rest)
    (fun e x stop next _ before flat => classifyName_rule _ stop
      (next.trans (nextSolid_blanks blanks rfl rest)) (by rw [before]; exact mark) flat)
    m between
  exact ⟨m', ⟨_, _, _, trivial, named⟩, written⟩

/-- The style of a declaration's name is what the look-up of the name decides. -/
theorem style_declarationName (keywords : KeywordSet) (name : Name) :
    (if keywords.property.contains (keyword name.chars) then Style.property
      else .unknownProperty) = (name.piece .declarationName).style keywords :=
  ite_rel (contains_keyword keywords.property (List.cons_ne_nil name.first name.others))
    (fun _ => rfl) fun _ => rfl

theorem reads_declarationName (name : Name) (blanks : Blanks) (rest : List Char) :
    Reads o (At o .declaration) [name.piece .declarationName] (blanks.chars ++ ':' :: rest)
      (At o .colon) := by
  intro m ⟨_, last, style, ⟨rfl, mark⟩, between⟩
  have known : ((name.piece .declarationName).style o.keywords).isProperty = true := by
    rw [← style_declarationName]
    split <;> rfl
  obtain ⟨m', ⟨c, -, named⟩, written⟩ := reads_name name .declarationName true
    (endsName_blanks blanks rfl rest)
    (fun e x stop next keywords before flat => by
      rw [classifyName_declaration _ stop (next.trans (nextSolid_blanks blanks rfl rest))
        (by rw [before]; exact mark) flat, keywords, style_declarationName])
    m between
  exact ⟨m', ⟨_, _, _, ⟨rfl, known⟩, named⟩, written⟩

theorem reads_valueName (name : Name) {text : List Char} (ends : text.head?.any endsName = true) :
    Reads o (At o .value) [name.piece .valueName] text (At o .value) := by
  intro m ⟨_, last, style, ⟨rfl, other⟩, between⟩
  obtain ⟨m', ⟨c, run, named⟩, written⟩ := reads_name name .valueName true ends
    (fun e x stop _ _ before flat => classifyName_value _ stop (by rw [before]; exact other) flat)
    m between
  refine ⟨m', ⟨_, _, _, ⟨rfl, ?_⟩, named⟩, written⟩
  simpa using ne_of_isRunChar run (x := '!') rfl

/-! ### Declarations and rules -/

theorem textOf_blanks_mark (blanks : Blanks) (c : Char) (pieces : List Piece) (rest : List Char) :
    textOf (blanks.piece :: mark c :: pieces) ++ rest =
      blanks.chars ++ c :: (textOf pieces ++ rest) := by
  simp [textOf, Blanks.piece, mark]

theorem textOf_blanks_name (blanks : Blanks) (name : Name) (role : Role) (rest : List Char) :
    textOf [blanks.piece, name.piece role] ++ rest = blanks.chars ++ (name.chars ++ rest) := by
  simp [textOf, Blanks.piece, Name.piece]

theorem reads_moreValues (more : List (Gap × Name)) (blanks : Blanks) (rest : List Char) :
    Reads o (At o .value) (gapsAndNames more) (blanks.chars ++ ';' :: rest) (At o .value) := by
  induction more with
  | nil => exact .nil o _ _
  | cons more others ih =>
    have name := reads_valueName (o := o) more.2 (endsName_moreValues others blanks rest)
    exact (reads_blanks more.1.toBlanks .value _).cons (name.cons ih)

theorem reads_declaration (d : Declaration) (rest : List Char) :
    Reads o (At o .declaration) d.pieces rest (At o .declaration) := by
  have tail : Reads o (At o .value)
      [d.beforeSemicolon.piece, mark ';', d.behindSemicolon.piece] rest (At o .declaration) :=
    (reads_blanks d.beforeSemicolon .value _).cons
      ((reads_mark (.inr (.inr rfl)) ⟨rfl, .inr rfl⟩ _).cons
        (reads_blanks d.behindSemicolon _ rest))
  have text := textOf_blanks_mark d.beforeSemicolon ';' [d.behindSemicolon.piece] rest
  have more := reads_moreValues (o := o) d.moreValues d.beforeSemicolon
    (textOf [d.behindSemicolon.piece] ++ rest)
  have value := reads_valueName (o := o) d.value (endsName_moreValues d.moreValues
    d.beforeSemicolon (textOf [d.behindSemicolon.piece] ++ rest))
  rw [← text] at more value
  refine (Reads.append ?_ more).append tail
  refine (Reads.cons ?_ ((reads_blanks d.beforeColon .colon _).cons (Reads.cons (reads_colon ?_)
    ((reads_blanks d.behindColon .value _).cons value))))
  · rw [textOf_blanks_mark]
    exact reads_declarationName d.name d.beforeColon _
  · rw [textOf_blanks_name]
    exact head_blanks_name d.behindColon d.value _

theorem reads_declarations (declarations : List Declaration) (rest : List Char) :
    Reads o (At o .declaration) (declarations.flatMap Declaration.pieces) rest
      (At o .declaration) := by
  induction declarations with
  | nil => exact .nil o _ rest
  | cons d declarations ih =>
    rw [List.flatMap_cons]
    exact (reads_declaration d _).append ih

/-- Any number of rules are read, however deep they are nested. -/
theorem reads_rules (rules : Rules) (rest : List Char) :
    Reads o (At o .rule) rules.pieces rest (At o .rule) := by
  induction rules generalizing rest with
  | none => exact .nil o _ rest
  | rule name beforeBrace behindBrace declarations inner behind others ihInner ihOthers =>
    have opening (text : List Char) : Reads o (At o .rule)
        [name.piece .ruleName, beforeBrace.piece, mark '{', behindBrace.piece] text
        (At o .declaration) := by
      refine Reads.cons ?_ ((reads_blanks beforeBrace .anywhere _).cons
        ((reads_mark (.inl rfl) ⟨rfl, .inl rfl⟩ _).cons (reads_blanks behindBrace _ text)))
      rw [textOf_blanks_mark]
      exact reads_ruleName name beforeBrace _
    have closing (text : List Char) : Reads o (At o .rule) [mark '}', behind.piece] text
        (At o .rule) :=
      (reads_mark (.inr (.inl rfl)) ⟨rfl, rfl⟩ _).cons (reads_blanks behind _ text)
    -- The rules inside stand where another declaration might stand.
    have block (text : List Char) : Reads o (At o .rule)
        ([name.piece .ruleName, beforeBrace.piece, mark '{', behindBrace.piece] ++
          declarations.flatMap Declaration.pieces ++ inner.pieces) text (At o .rule) :=
      ((opening _).append (reads_declarations declarations _)).append
        ((ihInner text).weaken fun m => At.rule_of_declaration)
    exact ((block _).append (closing _)).append (ihOthers rest)

/-- A scan of a whole text begins where a rule may stand. -/
theorem at_fresh (o : ScanOptions) (text : List Char) : At o .rule (fresh text) := by
  refine ⟨false, none, .default, ⟨rfl, rfl⟩, ⟨.inl rfl, rfl, rfl, rfl, ?_⟩⟩
  constructor <;> rfl

end Machine

namespace Document

variable {p : Place} {s : ScanSetup} {o : ScanOptions}

/-- A scan gives every piece of a sheet its style: rule names are tags, the names of declarations
known or unknown properties, the names behind them values, marks operators, and blanks have the
default style. -/
theorem scanAll_sheet (options : s.options p = .ok o) (sheet : Sheet) :
    ∃ d r, (ofChars sheet.text).scanAll p s = .ok (d, r) ∧
      d.styles = stylesOf o.keywords sheet.pieces := by
  obtain ⟨d, r, scanned, -, written⟩ :=
    scan_front options (ofChars sheet.text) (Nat.le_refl _) .default
  have read : Machine.Reads o (Machine.At o .rule) sheet.pieces [] (Machine.At o .rule) :=
    (Machine.reads_blanks sheet.leading _ _).cons (Machine.reads_rules sheet.rules [])
  obtain ⟨m, -, latest, same⟩ := read _ (Machine.at_fresh o sheet.text)
  have styles : ((Machine.fresh sheet.text).run o sheet.text.length sheet.text).latest =
      (stylesOf o.keywords sheet.pieces).reverse := by
    rw [List.append_nil] at same
    rw [Machine.run_length]
    exact (congrArg Machine.latest same).trans (latest.trans (List.append_nil _))
  have length : (stylesOf o.keywords sheet.pieces).length = (ofChars sheet.text).styles.length := by
    rw [length_stylesOf, (sized_ofChars sheet.text).styles]
    rfl
  exact ⟨d, r, scanned, written.styles_eq styles length⟩

/-- A known property in capitals, with two names as its value, and a rule inside the rule. -/
theorem scanAll_sheet_nested :
    let empty : Blanks := ⟨[], List.forall_mem_nil _⟩
    let a : Name := ⟨'a', [], rfl, List.forall_mem_nil _⟩
    let top : Name := ⟨'T', ['O', 'P'], rfl, List.all_eq_true.mp rfl⟩
    let feed : Gap := ⟨⟨['\n'], List.all_eq_true.mp rfl⟩, List.cons_ne_nil _ _⟩
    let inner : Rules := .rule a feed.toBlanks empty [] .none empty .none
    let sheet : Sheet := ⟨empty, .rule a empty empty
      [⟨top, empty, empty, a, [(feed, a)], empty, empty⟩] inner empty .none⟩
    let keywords : KeywordSet :=
      { (default : KeywordSet) with property := ⟨#["top"], List.pairwise_singleton _ _⟩ }
    sheet.text = ['a', '{', 'T', 'O', 'P', ':', 'a', '\n', 'a', ';', 'a', '\n', '{', '}', '}'] ∧
      ∃ d r, (ofChars sheet.text).scanAll default { keywords := keywords } = .ok (d, r) ∧
        d.styles = [.tag, .operator, .property, .property, .property, .operator, .value, .default,
          .value, .operator, .tag, .default, .operator, .operator, .operator] := by
  intro empty a top feed inner sheet keywords
  refine ⟨rfl, ?_⟩
  have options : ScanSetup.options default { keywords := keywords } =
      .ok ⟨.standard, true, keywords⟩ := rfl
  obtain ⟨d, r, scanned, styles⟩ := scanAll_sheet options sheet
  exact ⟨d, r, scanned, styles.trans (by decide +kernel)⟩

end Document

end CssHighlight
