import CssHighlight.Proofs.LineData

/-!
# Line states and fold levels as codes

A context has a line state exactly when none of the fields that it keeps is negative. Reading the
line state back gives each field as far as it fits and leaves the rest of the context alone, and
every number is the line state of the context that is read from it, up to the bits above the last
field.

A fold level is made of two levels that are not negative, and gives them back as far as they fit,
with a mark that is set as the levels that are given back ask for it. Not every number is a fold
level: a bit outside the two levels is either the mark, which they determine, or a stray one.
-/
namespace CssHighlight.LineState

variable {Flag Count : Type} [AsNumber Flag] [AsNumber Count]

/-- The error names a field that is negative. -/
theorem exists_of_encode_error {c : ContextOf Flag Count} {e : LineDataError}
    (failed : encode c = .error e) :
    ∃ f, fieldValue c f < 0 ∧ e = .negativeField f (fieldValue c f) := by
  unfold encode at failed
  split at failed
  next f found =>
    cases failed
    exact ⟨f, by simpa using List.find?_some found, rfl⟩
  next => cases failed

theorem encode_of_nonneg {c : ContextOf Flag Count} (nonneg : ∀ f, 0 ≤ fieldValue c f) :
    encode c = .ok (pack c) := by
  have none : LineField.all.find? (fun f => fieldValue c f < 0) = none :=
    List.find?_eq_none.mpr fun f _ => by simpa using nonneg f
  rw [encode, none]

theorem exists_encode_error_iff (c : ContextOf Flag Count) :
    (∃ e, encode c = .error e) ↔ ∃ f, fieldValue c f < 0 := by
  constructor
  · rintro ⟨e, failed⟩
    obtain ⟨f, negative, -⟩ := exists_of_encode_error failed
    exact ⟨f, negative⟩
  · rintro ⟨f, negative⟩
    cases found : encode c with
    | error e => exact ⟨e, rfl⟩
    | ok state =>
      -- A state is given only where the search over all fields has found nothing.
      unfold encode at found
      split at found
      next => cases found
      next none =>
        have member : f ∈ LineField.all := by cases f <;> decide
        exact absurd negative (by simpa using List.find?_eq_none.mp none f member)

/-- What is read back from a context's line state. -/
theorem restore_pack {c : ContextOf Flag Count} (nonneg : ∀ f, 0 ≤ fieldValue c f) (x : Context) :
    restore (pack c) x =
      { x with
        inValue := min (fieldValue c .inValue) 1 != 0
        inBrackets := min (fieldValue c .inBrackets) 1 != 0
        mathDepth := min (fieldValue c .mathDepth) 63
        parenDepth := min (fieldValue c .parenDepth) 255
        selectorDepth := min (fieldValue c .selectorDepth) 255 } := by
  have flag {n : Int} (le : 0 ≤ n) : (min n.toNat 1 != 0) = (min n 1 != 0) := by
    rw [Bool.eq_iff_iff, bne_iff_ne, bne_iff_ne]
    omega
  have count {n : Int} (limit : Nat) (le : 0 ≤ n) :
      ((min n.toNat limit : Nat) : Int) = min n limit := by
    omega
  simp only [restore, field_pack, LineField.limit, flag (nonneg _), count _ (nonneg _)]
  rfl

theorem fieldValue_restore (state : Nat) (x : Context) (f : LineField) :
    fieldValue (restore state x) f = field state f := by
  -- A flag is a field of one bit.
  have flag (n : Nat) (le : n < 2) : AsNumber.number (n != 0) = n := by
    obtain rfl | rfl : n = 0 ∨ n = 1 := by omega
    · rfl
    · rfl
  cases f with
  | inValue => exact flag _ (Nat.mod_lt _ (by decide))
  | inBrackets => exact flag _ (Nat.mod_lt _ (by decide))
  | mathDepth | parenDepth | selectorDepth => rfl

/-- The fields leave no gap between them. -/
theorem pack_restore (state : Nat) (x : Context) :
    pack (restore state x) = state % 0x1000000 := by
  simp only [pack, fieldValue_restore, LineField.all, List.map_cons, List.map_nil, List.foldr_cons,
    List.foldr_nil, field, LineField.limit, LineField.weight, Int.toNat_natCast]
  omega

/-- A context whose kept fields are flags or numbers, in any mixture, has a line state exactly when
none of them is negative. The line state has 24 bits, and reading it gives each field as far as it
fits. What is read from any number has the low 24 bits of that number as its line state. -/
theorem encode_decode (c : ContextOf Flag Count) :
    ((∃ e, encode c = .error e) ↔ ∃ f, fieldValue c f < 0) ∧
    ((∀ f, 0 ≤ fieldValue c f) →
      ∃ state : Nat, encode c = .ok state ∧ state < 0x1000000 ∧
        ∀ x : Context, decode (.int state) x = .ok
          { x with
            inValue := min (fieldValue c .inValue) 1 != 0
            inBrackets := min (fieldValue c .inBrackets) 1 != 0
            mathDepth := min (fieldValue c .mathDepth) 63
            parenDepth := min (fieldValue c .parenDepth) 255
            selectorDepth := min (fieldValue c .selectorDepth) 255 }) ∧
    ∀ (state : Nat) (x : Context), ∃ y,
      decode (.int state) x = .ok y ∧ encode y = .ok (state % 0x1000000) := by
  have decoded (state : Nat) (x : Context) : decode (.int state) x = .ok (restore state x) := rfl
  refine ⟨exists_encode_error_iff c, fun nonneg => ?_, fun state x => ?_⟩
  · refine ⟨pack c, encode_of_nonneg nonneg, pack_lt c, fun x => ?_⟩
    rw [decoded, restore_pack nonneg]
  · refine ⟨restore state x, decoded state x, ?_⟩
    have nonneg (f : LineField) : 0 ≤ fieldValue (restore state x) f := by
      rw [fieldValue_restore]
      exact Int.natCast_nonneg _
    rw [encode_of_nonneg nonneg, pack_restore]

/-- A number in the place of a flag and a flag in the place of a number, with depths that are too
large for their fields. -/
theorem encode_decode_mixed :
    let c : ContextOf Scalar Scalar :=
      { inValue := .number 7, inBrackets := .flag false, mathDepth := .number 500,
        parenDepth := .flag true, selectorDepth := .number 300, before := none, lastChar := none,
        lastStyle := .default, interpolation := none, mathPending := .flag false, escape := {},
        foldHere := .number 0, foldNext := .number 0 }
    (∀ f, 0 ≤ fieldValue c f) ∧ ∃ state : Nat, encode c = .ok state ∧
      decode (.int state) .initial = .ok
        { Context.initial with
          inValue := true, mathDepth := 63, parenDepth := 1, selectorDepth := 255 } := by
  intro c
  have nonneg : ∀ f, 0 ≤ fieldValue c f := by
    intro f
    cases f <;> decide
  obtain ⟨state, encoded, -, decoded⟩ := (encode_decode c).2.1 nonneg
  exact ⟨nonneg, state, encoded, decoded .initial⟩

end CssHighlight.LineState

namespace CssHighlight.FoldLevel

/-- A stored level that two levels are packed into. -/
def Packs (here next level : Int) : Prop :=
  ∃ packed : Nat, encode here next = .ok packed ∧ packed = level

theorem encode_error_iff (here next : Int) :
    encode here next = .error .negativeFoldLevel ↔ here < 0 ∨ next < 0 := by
  unfold encode
  constructor
  · intro failed
    split at failed
    next negative => exact negative
    next => cases failed
  · intro negative
    rw [if_pos negative]

theorem encode_natCast (here next : Nat) : encode here next = .ok (pack here next) := by
  simp [encode]

theorem packs_natCast_iff {here next : Nat} {level : Int} :
    Packs here next level ↔ pack here next = level := by
  simp [Packs, encode_natCast]

/-- Only levels that are not negative are packed. -/
theorem Packs.exists_nat {here next level : Int} (packs : Packs here next level) :
    ∃ m n : Nat, here = m ∧ next = n := by
  obtain ⟨packed, encoded, -⟩ := packs
  have nonneg : ¬(here < 0 ∨ next < 0) := by
    intro negative
    rw [(encode_error_iff here next).mpr negative] at encoded
    cases encoded
  exact ⟨here.toNat, next.toNat, by omega, by omega⟩

section Parts

variable (here next : Nat)

/-- Neither the upper half nor the mark reaches into the lower half. -/
theorem here_pack : FoldLevel.here (pack here next) = min (here : Int) limit := by
  have low : min here limit ≤ 0xFFF := Nat.min_le_right here limit
  simp only [FoldLevel.here, pack, highWeight, headerFlag]
  split <;> omega

/-- The mark compares the levels as they are held, and neither half reaches into it. -/
theorem isHeader_pack :
    isHeader (pack here next) = decide (min (here : Int) limit < min (next : Int) limit) := by
  have low : min here limit ≤ 0xFFF := Nat.min_le_right here limit
  have high : min next limit ≤ 0xFFF := Nat.min_le_right next limit
  rw [isHeader, decide_eq_decide]
  simp only [pack, highWeight, headerFlag]
  split <;> omega

theorem unpack_pack :
    unpack (pack here next) =
      (min (here : Int) limit, min (next : Int) limit,
        decide (min (here : Int) limit < min (next : Int) limit)) := by
  rw [unpack, here_pack, next_pack, isHeader_pack]

/-- Levels that are held at the limit are packed as they were. -/
theorem pack_min : pack (min here limit) (min next limit) = pack here next := by
  simp only [pack, Nat.min_assoc, Nat.min_self]

end Parts

/-- A stored level gives back levels that it is packed from, if there are any. -/
theorem Packs.unpack {here next level : Int} (packs : Packs here next level) :
    Packs (unpack level).1 (unpack level).2.1 level := by
  obtain ⟨m, n, rfl, rfl⟩ := packs.exists_nat
  obtain rfl := packs_natCast_iff.mp packs
  have low : min (m : Int) limit = (min m limit : Nat) := by omega
  have high : min (n : Int) limit = (min n limit : Nat) := by omega
  rw [unpack_pack, low, high, packs_natCast_iff, pack_min]

/-- Two levels are packed exactly when none of them is negative. What is unpacked then are the
levels as far as they fit, and the mark says that the second of these is the greater one. The second
one is what the next line inherits. Any number is packed again from what it is unpacked to exactly
when it is packed from some levels at all. -/
theorem encode_unpack :
    (∀ here next : Int,
      (encode here next = .error .negativeFoldLevel ↔ here < 0 ∨ next < 0) ∧
      (0 ≤ here → 0 ≤ next → ∃ level : Nat, encode here next = .ok level ∧
        unpack level =
          (min here 0xFFF, min next 0xFFF, decide (min here 0xFFF < min next 0xFFF)) ∧
        carried (some (level : Int)) = min next 0xFFF)) ∧
    ∀ level : Int, Packs (unpack level).1 (unpack level).2.1 level ↔
      ∃ here next, Packs here next level := by
  constructor
  · intro here next
    refine ⟨encode_error_iff here next, ?_⟩
    intro hereNonneg nextNonneg
    obtain ⟨m, rfl⟩ := Int.eq_ofNat_of_zero_le hereNonneg
    obtain ⟨n, rfl⟩ := Int.eq_ofNat_of_zero_le nextNonneg
    exact ⟨pack m n, encode_natCast m n, unpack_pack m n, next_pack m n⟩
  · intro level
    constructor
    · intro packs
      exact ⟨_, _, packs⟩
    · rintro ⟨here, next, packs⟩
      exact packs.unpack

/-- Both levels are held at the limit, so that the line opens nothing; and a number that has a stray
bit beside its levels is packed from none. -/
theorem encode_unpack_limit :
    (0 : Int) ≤ 0x2000 ∧ (0 : Int) ≤ 0x12345 ∧
      (∃ level : Nat, encode 0x2000 0x12345 = .ok level ∧ unpack level = (0xFFF, 0xFFF, false) ∧
        carried (some (level : Int)) = 0xFFF) ∧
      ¬∃ here next, Packs here next 0x1000 := by
  have first : (0 : Int) ≤ 0x2000 := by decide
  have second : (0 : Int) ≤ 0x12345 := by decide
  refine ⟨first, second, (encode_unpack.1 0x2000 0x12345).2 first second, ?_⟩
  intro stray
  have packs := (encode_unpack.2 0x1000).mpr stray
  exact absurd (packs_natCast_iff.mp packs) (by decide)

end CssHighlight.FoldLevel
