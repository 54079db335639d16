import CssHighlight.Files.Text

/-!
# A larger stack

How many calls are left decides only whether a text is read or a path is resolved at all: whatever
comes of it with few calls comes of it with more, unless they were too few. So one stack can stand
for all the places in a run where calls are left, if it is no larger than any of theirs.
-/
namespace CssHighlight

section Extends

variable {ε α β : Type} {deep : ε} {few many : Except ε α} {next next' : α → Except ε β}

/-- With more calls there is the same result, unless there were too few of them before. -/
def Extends (deep : ε) (few many : Except ε α) : Prop :=
  few = .error deep ∨ many = few

theorem Extends.refl (result : Except ε α) : Extends deep result result :=
  .inr rfl

theorem Extends.bind (first : Extends deep few many)
    (behind : ∀ a, Extends deep (next a) (next' a)) :
    Extends deep (few >>= next) (many >>= next') := by
  rcases first with tooFew | rfl
  · rw [tooFew]
    exact .inl rfl
  · cases many with
    | error cause => exact .refl _
    | ok a => exact behind a

theorem Extends.map (first : Extends deep few many) (f : α → β) :
    Extends deep (few.map f) (many.map f) := by
  rcases first with tooFew | rfl
  · rw [tooFew]
    exact .inl rfl
  · exact .refl _

end Extends

namespace Toml

section Readers

variable {fuel few many : Nat} {s : List Char}

/-- What the induction on the fuel says of the three readers that call one another. -/
structure Grows (fuel : Nat) : Prop where
  value {few many : Nat} (s : List Char) (more : few ≤ many) :
    Extends .tooDeep (value fuel few s) (value fuel many s)
  arrayItems {few many : Nat} (done : List Value) (s : List Char) (more : few ≤ many) :
    Extends .tooDeep (arrayItems fuel few done s) (arrayItems fuel many done s)
  inlineEntries {few many : Nat} (entries : Entries) (marks : Marks) (s : List Char)
    (more : few ≤ many) :
    Extends .tooDeep (inlineEntries fuel few entries marks s)
      (inlineEntries fuel many entries marks s)

theorem extends_value (grows : Grows fuel) (more : few ≤ many) :
    Extends .tooDeep (value (fuel + 1) few s) (value (fuel + 1) many s) := by
  unfold value
  split
  next rest =>
    split
    next => exact .inl rfl
    next enough =>
      rw [if_neg (by omega)]
      exact .bind (.refl _) fun s => grows.arrayItems [] s (Nat.sub_le_sub_right more _)
  next rest =>
    split
    next => exact .inl rfl
    next enough =>
      rw [if_neg (by omega)]
      split
      · exact .refl _
      · exact grows.inlineEntries [] [] _ (Nat.sub_le_sub_right more _)
  next => exact .refl _

theorem extends_arrayItems (grows : Grows fuel) (done : List Value) (more : few ≤ many) :
    Extends .tooDeep (arrayItems (fuel + 1) few done s)
      (arrayItems (fuel + 1) many done s) := by
  unfold arrayItems
  split
  next => exact .refl _
  next =>
    refine .bind (grows.value s more) fun read => .bind (.refl _) fun behind => ?_
    split
    · exact .refl _
    · exact .bind (.refl _) fun rest => grows.arrayItems _ rest more
    · exact .refl _

theorem extends_inlineEntries (grows : Grows fuel) (entries : Entries) (marks : Marks)
    (more : few ≤ many) :
    Extends .tooDeep (inlineEntries (fuel + 1) few entries marks s)
      (inlineEntries (fuel + 1) many entries marks s) := by
  unfold inlineEntries
  refine .bind (.refl _) fun ⟨key, rest⟩ => ?_
  dsimp only
  split
  next =>
    refine .bind (grows.value _ more) fun ⟨item, rest⟩ => ?_
    dsimp only
    split
    · exact .inr rfl
    · refine .bind (.refl _) fun entries => ?_
      split
      · exact .refl _
      · exact grows.inlineEntries _ _ _ more
      · exact .refl _
  next => exact .refl _

theorem grows (fuel : Nat) : Grows fuel := by
  induction fuel with
  | zero => exact ⟨fun _ _ => .refl _, fun _ _ _ => .refl _, fun _ _ _ _ => .refl _⟩
  | succ fuel ih =>
    exact ⟨fun _ => extends_value ih, fun done _ => extends_arrayItems ih done,
      fun entries marks _ => extends_inlineEntries ih entries marks⟩

theorem extends_statement (b : Builder) (s : List Char) (more : few ≤ many) :
    Extends .tooDeep (statement few b s) (statement many b s) := by
  unfold statement
  split
  next => exact .refl _
  next => exact .refl _
  next =>
    refine .bind (.refl _) fun ⟨key, rest⟩ => ?_
    dsimp only
    split
    next => exact .bind ((grows _).value _ more) fun _ => .refl _
    next => exact .refl _

theorem extends_lines (fuel : Nat) (b : Builder) (s : List Char) (more : few ≤ many) :
    Extends .tooDeep (lines few fuel b s) (lines many fuel b s) := by
  induction fuel generalizing b s with
  | zero => exact .refl _
  | succ fuel ih =>
    rw [lines, lines]
    split
    next => exact .refl _
    next => exact ih b _
    next =>
      dsimp only
      split
      next =>
        refine .bind (.refl _) fun ⟨b, rest⟩ => .bind (.refl _) fun behind => ?_
        split
        · exact .refl _
        · exact ih b _
        · exact .refl _
      next =>
        refine .bind (extends_statement b _ more) fun ⟨b, rest⟩ =>
          .bind (.refl _) fun behind => ?_
        split
        · exact .refl _
        · exact ih b _
        · exact .refl _

/-- A text that is read with few calls is read in the same way with more. -/
theorem extends_parse (text : String) (more : few ≤ many) :
    Extends .tooDeep (parse few text) (parse many text) :=
  (extends_lines _ _ _ more).map _

end Readers

end Toml

namespace Place

variable {p : Place} {stack : Nat}

/-- The same place with more calls left. -/
def withStack (p : Place) (more : p.stack ≤ stack) : Place :=
  { p with stack := stack, spare := Nat.le_trans p.spare more }

section Fields

variable (more : p.stack ≤ stack) (text : String)

@[simp] theorem stack_withStack : (p.withStack more).stack = stack := rfl

@[simp] theorem stat_withStack : (p.withStack more).stat text = p.stat text := rfl

@[simp] theorem linkStat_withStack : (p.withStack more).linkStat text = p.linkStat text := rfl

@[simp] theorem loopError_withStack : (p.withStack more).loopError text = p.loopError text := rfl

@[simp] theorem directory_withStack : (p.withStack more).directory = p.directory := rfl

@[simp] theorem resolveFuel_withStack (steps : List PathStep) :
    (p.withStack more).resolveFuel steps = p.resolveFuel steps := rfl

@[simp] theorem readText_withStack : (p.withStack more).readText text = p.readText text := rfl

end Fields

/-- A file that is read with few calls left is read in the same way with more. -/
theorem extends_readTable (more : p.stack ≤ stack) (path : String) :
    Extends (.toml .tooDeep) (p.readTable path) ((p.withStack more).readTable path) := by
  rw [readTable, readTable, readText_withStack, stack_withStack]
  split
  next => exact .refl _
  next text _ =>
    rcases Toml.extends_parse text more with tooFew | parsed
    · rw [tooFew]
      exact .inl rfl
    · rw [parsed]
      exact .refl _

theorem extends_resolveSteps (more : p.stack ≤ stack) (strict : Bool) (fuel : Nat) (here : Path)
    (seen : List (Path × Option Path)) (steps : List PathStep) :
    Extends .tooDeep (p.resolveSteps strict fuel here seen steps)
      ((p.withStack more).resolveSteps strict fuel here seen steps) := by
  induction fuel generalizing here seen steps with
  | zero => exact .refl _
  | succ fuel ih =>
    rcases steps with _ | ⟨name | link, rest⟩
    · exact .refl _
    · rw [resolveSteps, resolveSteps]
      simp only [linkStat_withStack, loopError_withStack]
      split
      next => exact ih _ _ _
      next =>
        split
        next => exact ih _ _ _
        next =>
          split
          next => exact .refl _
          next =>
            split
            · exact .refl _
            · exact ih _ _ _
          next =>
            split
            next => exact ih _ _ _
            next => exact .refl _
            next =>
              -- Only a link that is new takes a call.
              split
              next => exact .inl rfl
              next enough =>
                have enough' : ¬(p.withStack more).stack ≤ PathStep.pending rest :=
                  fun tooFew => enough (Nat.le_trans more tooFew)
                rw [if_neg enough']
                exact ih _ _ _
          next => exact ih _ _ _
    · exact ih _ _ _

/-- A path that is resolved with few calls left is resolved to the same one with more. -/
theorem extends_resolve (more : p.stack ≤ stack) (strict : Bool) (path : Path) :
    Extends .tooDeep (p.resolve strict path) ((p.withStack more).resolve strict path) := by
  rw [resolve, resolve]
  rcases extends_resolveSteps more strict (p.resolveFuel (path.names.map .enter))
      ⟨if path.isAbsolute then "/" else "", []⟩ [] (path.names.map .enter) with tooFew | same
  · simp only [tooFew]
    exact .inl rfl
  · simp only [resolveFuel_withStack, same, stat_withStack, directory_withStack]
    exact .refl _

end Place

end CssHighlight
