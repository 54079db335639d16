import CssHighlight.Scan.Token

/-!
# Parentheses that are open

Styled characters tell which parentheses are open and what opened them: the stack of them is one
fold, and the counters of the scan are another one, which knows no stack. The counters never exceed
the numbers that the stack gives, and they agree with them until a parenthesis closes that the
counter in question did not count.
-/
namespace CssHighlight

/-- What stands in front of a parenthesis that opens: the name of a math function, that of a
pseudo-class whose arguments are selectors, that of a bare address, or nothing of these. -/
inductive ParenKind where
  | plain
  | math
  | selectors
  | address
  deriving DecidableEq, Repr

/-- The name of a run in lower case, unless it is too long. -/
def lowerName (run : List Char) : Option String :=
  if run.length < 128 then some (String.ofList (Text.lowerChars run)) else none

/-- The kind of a parenthesis behind styled characters, the last of which comes first. -/
def parenKind (keywords : KeywordSet) (before : List (Char × Style)) : ParenKind :=
  match before with
  | (_, .function) :: _ =>
    let run := (before.takeWhile fun entry => entry.2 == .function).map Prod.fst
    if keywords.mathFunction.containsPrefixed "(" (lowerName run.reverse) then .math else .plain
  | (_, .pseudoClass) :: _ =>
    let name := (before.map Prod.fst).takeWhile (· != ':')
    if (bareName 1 (lowerName (':' :: name.reverse))).any selectorPseudoClasses.contains then
      .selectors
    else .plain
  | (_, .identifier) :: _ => .address
  | _ => .plain

/-! ### The stack -/

/-- What punctuation does to the open parentheses; `kind` is that of one that opens here. -/
def trackParens (kind : ParenKind) (c : Char) (open_ : List ParenKind) : List ParenKind :=
  match c with
  | '(' => kind :: open_
  | ')' => open_.tail
  | '{' | '}' => []
  | _ => open_

theorem length_trackParens_le (kind : ParenKind) (c : Char) (open_ : List ParenKind) :
    (trackParens kind c open_).length ≤ open_.length + 1 := by
  unfold trackParens
  split
  · exact Nat.le_refl _
  · rw [List.length_tail]
    omega
  · exact Nat.zero_le _
  · exact Nat.zero_le _
  · exact Nat.le_succ _

/-- The parentheses that are open behind styled characters, the innermost one first. -/
def openParens (keywords : KeywordSet) : List (Char × Style) → List ParenKind
  | [] => []
  | (c, style) :: before =>
    if style = .operator then trackParens (parenKind keywords before) c (openParens keywords before)
    else openParens keywords before

/-- How many open parentheses belong to math functions or lie inside those that do. -/
def insideMath : List ParenKind → Nat
  | [] => 0
  | kind :: outer =>
    if kind = .math ∨ insideMath outer ≠ 0 then insideMath outer + 1 else 0

theorem insideMath_le_length (open_ : List ParenKind) : insideMath open_ ≤ open_.length := by
  induction open_ with
  | nil => exact Nat.le_refl 0
  | cons kind outer ih =>
    rw [insideMath]
    split
    · exact Nat.succ_le_succ ih
    · exact Nat.zero_le _

/-- Closing the innermost parenthesis takes one away, if there is one to be taken away. -/
theorem insideMath_tail (open_ : List ParenKind) :
    insideMath open_.tail = insideMath open_ - 1 := by
  cases open_ with
  | nil => rfl
  | cons kind outer =>
    rw [List.tail_cons, insideMath]
    split
    · rfl
    next outside => exact Decidable.not_not.mp (not_or.mp outside).2

/-! ### The counters -/

/-- The nesting that a scan keeps. -/
structure Nesting where
  math : Int
  parens : Int
  selectors : Int
  brackets : Bool
  deriving DecidableEq, Repr

namespace Nesting

def none : Nesting := ⟨0, 0, 0, false⟩

/-- Enters a parenthesis. The address behind the name of one does not count as an argument. -/
def enter (kind : ParenKind) (x : Nesting) : Nesting :=
  { x with
    math := if kind ≠ .address ∧ (x.math ≠ 0 ∨ kind = .math) then min (x.math + 1) maxMathDepth
      else x.math
    parens := min (x.parens + 1) maxParenDepth
    selectors := if kind = .selectors then min (x.selectors + 1) maxSelectorDepth
      else x.selectors }

def leave (x : Nesting) : Nesting :=
  { x with
    math := max (x.math - 1) 0
    parens := max (x.parens - 1) 0
    selectors := max (x.selectors - 1) 0 }

/-- What punctuation does to the nesting. -/
def track (kind : ParenKind) (c : Char) (x : Nesting) : Nesting :=
  match c with
  | '(' => x.enter kind
  | ')' => x.leave
  | '[' => { x with brackets := true }
  | ']' => { x with brackets := false }
  | '{' | '}' => none
  | _ => x

end Nesting

/-- The nesting behind styled characters, the last of which comes first. -/
def nestingOf (keywords : KeywordSet) : List (Char × Style) → Nesting
  | [] => .none
  | (c, style) :: before =>
    if style = .operator then (nestingOf keywords before).track (parenKind keywords before) c
    else nestingOf keywords before

/-! ### Both at once -/

section Tracked

variable {kind : ParenKind} {x y : Nesting} {open_ open_' : List ParenKind} {c : Char}

/-- What punctuation does to the counters and to the stack. -/
inductive Tracked (kind : ParenKind) (x : Nesting) (open_ : List ParenKind) :
    Char → Nesting → List ParenKind → Prop
  | opens : Tracked kind x open_ '(' (x.enter kind) (kind :: open_)
  | closes : Tracked kind x open_ ')' x.leave open_.tail
  | clears (c : Char) : Tracked kind x open_ c .none []
  | same (c : Char) {y : Nesting} (math : y.math = x.math) (selectors : y.selectors = x.selectors) :
      Tracked kind x open_ c y open_

theorem tracked (kind : ParenKind) (x : Nesting) (open_ : List ParenKind) (c : Char) :
    Tracked kind x open_ c (x.track kind c) (trackParens kind c open_) := by
  unfold Nesting.track
  split
  · exact .opens
  · exact .closes
  · exact .same '[' rfl rfl
  · exact .same ']' rfl rfl
  · exact .clears '{'
  · exact .clears '}'
  next opens closes _ _ brace brace' =>
    have kept : trackParens kind c open_ = open_ := by
      unfold trackParens
      split <;> simp_all
    rw [kept]
    exact .same c rfl rfl

/-- The counters are not above what the stack says. -/
structure Below (x : Nesting) (open_ : List ParenKind) : Prop where
  math : 0 ≤ x.math ∧ x.math ≤ insideMath open_
  selectors : 0 ≤ x.selectors ∧ x.selectors ≤ open_.count .selectors

theorem Below.track (h : Below x open_) (tracked : Tracked kind x open_ c y open_') :
    Below y open_' := by
  obtain ⟨math, selectors⟩ := h
  cases tracked with
  | opens =>
    have deeper : maxMathDepth = 63 ∧ maxSelectorDepth = 255 := ⟨rfl, rfl⟩
    constructor
    · simp only [Nesting.enter, insideMath]
      by_cases counts : kind ≠ .address ∧ (x.math ≠ 0 ∨ kind = .math)
      · -- A counter that is not zero shows that the stack is inside a math function.
        have inside : kind = .math ∨ insideMath open_ ≠ 0 := counts.2.symm.imp_right fun some => by
          omega
        rw [if_pos counts, if_pos inside]
        omega
      · rw [if_neg counts]
        split <;> omega
    · simp only [Nesting.enter, List.count_cons]
      by_cases counts : kind = .selectors
      · rw [if_pos counts, if_pos (by simp [counts])]
        omega
      · rw [if_neg counts, if_neg (by simp [counts])]
        omega
  | closes =>
    have tail := insideMath_tail open_
    have count : open_.tail.count .selectors = open_.count .selectors -
        if open_.head? == some .selectors then 1 else 0 := List.count_tail
    refine ⟨?_, ?_⟩ <;> simp only [Nesting.leave]
    · omega
    · split at count <;> omega
  | clears => exact ⟨⟨Int.le_refl 0, Int.le_refl 0⟩, Int.le_refl 0, Int.le_refl 0⟩
  | same c math' selectors' => exact ⟨math' ▸ math, selectors' ▸ selectors⟩

/-- The counter of math functions agrees with the stack as long as no bare address opens inside
one. -/
theorem Tracked.math_eq (tracked : Tracked kind x open_ c y open_')
    (same : x.math = insideMath open_) (shallow : open_'.length ≤ 63)
    (address : c = '(' → kind = .address → insideMath open_ = 0) :
    y.math = insideMath open_' := by
  cases tracked with
  | opens =>
    have deeper : maxMathDepth = 63 := rfl
    have length := insideMath_le_length (kind :: open_)
    simp only [Nesting.enter, insideMath] at length ⊢
    by_cases bare : kind = .address
    · have outside := address rfl bare
      simp [bare, outside, same]
    · by_cases inside : kind = .math ∨ insideMath open_ ≠ 0
      · have counts : kind ≠ .address ∧ (x.math ≠ 0 ∨ kind = .math) :=
          ⟨bare, inside.symm.imp_left fun some => by omega⟩
        -- The stack is shallow, so that the counter is not held at its limit.
        rw [if_pos inside] at length ⊢
        rw [if_pos counts]
        simp only [List.length_cons] at length shallow
        omega
      · obtain ⟨other, outside⟩ := not_or.mp inside
        rw [if_neg inside, if_neg fun counts => counts.2.elim (by omega) other]
        omega
  | closes =>
    have tail := insideMath_tail open_
    simp only [Nesting.leave]
    omega
  | clears => rfl
  | same c math' => exact math'.trans same

/-- The counter of selector lists agrees with the stack as long as no other parenthesis closes
inside one. -/
theorem Tracked.selectors_eq (tracked : Tracked kind x open_ c y open_')
    (same : x.selectors = open_.count .selectors) (shallow : open_'.length ≤ 255)
    (other : c = ')' → open_.head? ≠ some .selectors → .selectors ∉ open_) :
    y.selectors = open_'.count .selectors := by
  cases tracked with
  | opens =>
    have deeper : maxSelectorDepth = 255 := rfl
    have length : (kind :: open_).count .selectors ≤ (kind :: open_).length :=
      List.count_le_length
    simp only [Nesting.enter, List.count_cons] at length ⊢
    by_cases list : kind = .selectors
    · simp only [list, if_true, beq_self_eq_true] at length shallow ⊢
      omega
    · simp [list, same]
  | closes =>
    have count : open_.tail.count .selectors = open_.count .selectors -
        if open_.head? == some .selectors then 1 else 0 := List.count_tail
    simp only [Nesting.leave]
    by_cases list : open_.head? = some .selectors
    · simp only [list, beq_self_eq_true, if_true] at count
      omega
    · -- The counter is taken down as well, which does not matter where it is zero.
      have absent : open_.count .selectors = 0 := List.count_eq_zero.mpr (other rfl list)
      omega
  | clears => rfl
  | same c _ selectors' => exact selectors'.trans same

end Tracked

/-! ### Along a text -/

section Texts

variable {keywords : KeywordSet} {entries : List (Char × Style)}

/-- Nowhere along a text are more parentheses open. -/
def Shallow (limit : Nat) (keywords : KeywordSet) (entries : List (Char × Style)) : Prop :=
  ∀ before, before <:+ entries → (openParens keywords before).length ≤ limit

/-- The punctuation behind the last brace keeps to a rule about what stands in front of it. -/
def SinceBrace (rule : Char → List (Char × Style) → Prop) : List (Char × Style) → Prop
  | [] => True
  | (c, style) :: before =>
    style = .operator ∧ (c = '{' ∨ c = '}') ∨
      (style = .operator → rule c before) ∧ SinceBrace rule before

/-- No bare address opens inside a math function. -/
def AddressesOutside (keywords : KeywordSet) : List (Char × Style) → Prop :=
  SinceBrace fun c before => c = '(' → parenKind keywords before = .address →
    insideMath (openParens keywords before) = 0

/-- No other parenthesis closes inside a selector list. -/
def OthersOutside (keywords : KeywordSet) : List (Char × Style) → Prop :=
  SinceBrace fun c before => c = ')' → (openParens keywords before).head? ≠ some .selectors →
    .selectors ∉ openParens keywords before

theorem openParens_length_le (keywords : KeywordSet) (entries : List (Char × Style)) :
    (openParens keywords entries).length ≤ entries.length := by
  induction entries with
  | nil => exact Nat.le_refl 0
  | cons entry before ih =>
    obtain ⟨c, style⟩ := entry
    rw [openParens, List.length_cons]
    split
    · exact Nat.le_trans (length_trackParens_le _ c _) (Nat.succ_le_succ ih)
    · exact Nat.le_succ_of_le ih

/-- Short texts are shallow. -/
theorem shallow_of_length_le {limit : Nat} (short : entries.length ≤ limit) :
    Shallow limit keywords entries := fun before le =>
  Nat.le_trans (openParens_length_le keywords before) (Nat.le_trans le.length_le short)

/-- The counters are never above what the stack says. -/
theorem below_nestingOf (keywords : KeywordSet) (entries : List (Char × Style)) :
    Below (nestingOf keywords entries) (openParens keywords entries) := by
  induction entries with
  | nil => exact ⟨⟨Int.le_refl 0, Int.le_refl 0⟩, Int.le_refl 0, Int.le_refl 0⟩
  | cons entry before ih =>
    obtain ⟨c, style⟩ := entry
    rw [nestingOf, openParens]
    split
    · exact ih.track (tracked _ _ _ c)
    · exact ih

/-- A brace leaves nothing open, and the counters say so. -/
theorem nestingOf_brace {c : Char} (brace : c = '{' ∨ c = '}') (before : List (Char × Style)) :
    nestingOf keywords ((c, .operator) :: before) = .none ∧
      openParens keywords ((c, .operator) :: before) = [] := by
  rcases brace with rfl | rfl <;> exact ⟨rfl, rfl⟩

/-- What starts with nothing open, and is kept by punctuation that keeps to the rule, holds of the
counters and the stack. -/
theorem nestingOf_openParens {limit : Nat} {rule : Char → List (Char × Style) → Prop}
    {p : Nesting → List ParenKind → Prop} (fresh : p .none [])
    (step : ∀ c before, p (nestingOf keywords before) (openParens keywords before) →
      (trackParens (parenKind keywords before) c (openParens keywords before)).length ≤ limit →
      rule c before → p ((nestingOf keywords before).track (parenKind keywords before) c)
        (trackParens (parenKind keywords before) c (openParens keywords before)))
    (shallow : Shallow limit keywords entries) (keeps : SinceBrace rule entries) :
    p (nestingOf keywords entries) (openParens keywords entries) := by
  induction entries with
  | nil => exact fresh
  | cons entry before ih =>
    obtain ⟨c, style⟩ := entry
    rcases keeps with ⟨rfl, brace⟩ | ⟨ruled, keeps⟩
    · -- What stands in front of a brace does not matter behind it.
      obtain ⟨counters, stack⟩ := @nestingOf_brace keywords c brace before
      rw [counters, stack]
      exact fresh
    · have same := ih (fun b le => shallow b (le.trans (List.suffix_cons _ _))) keeps
      have length := shallow _ List.suffix_rfl
      rw [nestingOf]
      rw [openParens] at length ⊢
      split
      next operator =>
        rw [if_pos operator] at length
        exact step c before same length (ruled operator)
      next => exact same

theorem math_nestingOf (shallow : Shallow 63 keywords entries)
    (outside : AddressesOutside keywords entries) :
    (nestingOf keywords entries).math = insideMath (openParens keywords entries) :=
  nestingOf_openParens (p := fun x open_ => x.math = insideMath open_) rfl
    (fun c _ same length address => (tracked _ _ _ c).math_eq same length address) shallow outside

theorem selectors_nestingOf (shallow : Shallow 255 keywords entries)
    (outside : OthersOutside keywords entries) :
    (nestingOf keywords entries).selectors = (openParens keywords entries).count .selectors :=
  nestingOf_openParens (p := fun x open_ => x.selectors = open_.count .selectors) rfl
    (fun c _ same length other => (tracked _ _ _ c).selectors_eq same length other) shallow outside

end Texts

end CssHighlight
