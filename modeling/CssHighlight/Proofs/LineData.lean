import CssHighlight.Classify
import CssHighlight.Scan.Machine
import CssHighlight.Scan.Token

/-!
# What line data keeps

The fields of a line state are packed side by side, so each is found again as far as it fits, and
higher bits are never read. Of a fold level, the half that is carried into the next line is found
again.
-/
namespace CssHighlight

namespace LineState

/-- A field of a packed state, held at its limit. -/
theorem field_pack {Flag Count : Type} [AsNumber Flag] [AsNumber Count]
    (c : ContextOf Flag Count) (f : LineField) :
    field (pack c) f = min (fieldValue c f).toNat f.limit := by
  -- No field reaches into the one above it.
  have below (f : LineField) : min (fieldValue c f).toNat f.limit ≤ f.limit := Nat.min_le_right _ _
  have inValue := below .inValue
  have inBrackets := below .inBrackets
  have mathDepth := below .mathDepth
  have parenDepth := below .parenDepth
  have selectorDepth := below .selectorDepth
  simp only [field, pack, LineField.all, List.map_cons, List.map_nil, List.foldr_cons,
    List.foldr_nil, LineField.limit, LineField.weight] at *
  cases f <;> dsimp only <;> omega

/-- The five fields fill 24 bits. -/
theorem pack_lt {Flag Count : Type} [AsNumber Flag] [AsNumber Count]
    (c : ContextOf Flag Count) : pack c < 0x1000000 := by
  have below (f : LineField) : min (fieldValue c f).toNat f.limit ≤ f.limit := Nat.min_le_right _ _
  have inValue := below .inValue
  have inBrackets := below .inBrackets
  have mathDepth := below .mathDepth
  have parenDepth := below .parenDepth
  have selectorDepth := below .selectorDepth
  simp only [pack, LineField.all, List.map_cons, List.map_nil, List.foldr_cons,
    List.foldr_nil, LineField.limit, LineField.weight] at *
  omega

theorem field_mod (state : Nat) (f : LineField) : field (state % 0x1000000) f = field state f := by
  cases f <;> simp only [field, LineField.limit, LineField.weight] <;> omega

theorem restore_eq_of_mod {state state' : Nat} (same : state % 0x1000000 = state' % 0x1000000)
    (c : Context) : restore state c = restore state' c := by
  have fields (f : LineField) : field state f = field state' f := by
    rw [← field_mod state, same, field_mod]
  simp only [restore, fields]

end LineState

namespace Context

/-- Nesting that is counted within its bounds. -/
structure Bounded (c : Context) : Prop where
  mathDepth : 0 ≤ c.mathDepth ∧ c.mathDepth ≤ maxMathDepth
  parenDepth : 0 ≤ c.parenDepth ∧ c.parenDepth ≤ maxParenDepth
  selectorDepth : 0 ≤ c.selectorDepth ∧ c.selectorDepth ≤ maxSelectorDepth

/-- Nesting that is counted within its bounds is restored from its line state. -/
theorem Bounded.restore_pack {c : Context} (h : c.Bounded) (other : Context) :
    LineState.restore (LineState.pack c) other =
      { other with
        inValue := c.inValue
        inBrackets := c.inBrackets
        mathDepth := c.mathDepth
        parenDepth := c.parenDepth
        selectorDepth := c.selectorDepth } := by
  have flag (b : Bool) : (min (AsNumber.number b).toNat 1 != 0) = b := by
    cases b <;> rfl
  have count (n : Int) (limit : Nat) (bounds : 0 ≤ n ∧ n ≤ limit) :
      ((min (AsNumber.number n).toNat limit : Nat) : Int) = n := by
    simp only [AsNumber.number, id]
    omega
  simp only [LineState.restore, LineState.field_pack, LineState.fieldValue, LineField.limit, flag,
    count _ 63 h.mathDepth, count _ 255 h.parenDepth, count _ 255 h.selectorDepth]

/-- Nesting that is counted within its bounds has a line state. -/
theorem Bounded.encode {x : Context} (h : x.Bounded) :
    LineState.encode x = .ok (LineState.pack x) := by
  have nonneg : ∀ f ∈ LineField.all, ¬(decide (LineState.fieldValue x f < 0)) = true := by
    intro f _
    simp only [decide_eq_true_eq, Int.not_lt]
    cases f with
    | inValue => cases h : x.inValue <;> simp [LineState.fieldValue, AsNumber.number, h]
    | inBrackets => cases h : x.inBrackets <;> simp [LineState.fieldValue, AsNumber.number, h]
    | mathDepth => exact h.mathDepth.1
    | parenDepth => exact h.parenDepth.1
    | selectorDepth => exact h.selectorDepth.1
  unfold LineState.encode
  rw [List.find?_eq_none.mpr nonneg]

theorem clampFold_bounds (level : Int) :
    0 ≤ clampFold level ∧ clampFold level ≤ FoldLevel.limit := by
  simp only [clampFold, baseFold, FoldLevel.limit]
  omega

end Context

/-- Neither the lower half nor the mark reaches into the upper half of a fold level. -/
theorem FoldLevel.next_pack (here next : Nat) :
    FoldLevel.next (FoldLevel.pack here next) = min (next : Int) FoldLevel.limit := by
  have low : min here limit ≤ 0xFFF := Nat.min_le_right here limit
  have high : min next limit ≤ 0xFFF := Nat.min_le_right next limit
  simp only [FoldLevel.next, pack, highWeight, headerFlag]
  split <;> omega

/-- The level that a finished line carries out is found again in its stored form. -/
theorem FoldLevel.carried_pack (here next : Nat) (le : next ≤ FoldLevel.limit) :
    FoldLevel.carried (some (Int.ofNat (FoldLevel.pack here next))) = next := by
  have fits : min (next : Int) limit = next := Int.min_eq_left (by omega)
  exact (next_pack here next).trans fits

end CssHighlight
