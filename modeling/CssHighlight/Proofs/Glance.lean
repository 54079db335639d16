import CssHighlight.Scan.Step

/-!
# What a rule sees of the text ahead

The rules look a few characters ahead, and never beyond a blank or a slash that goes on with a
token, except when a name ends: then they look for the first character that separates no tokens.
Of that character they only ask whether it is one of a few marks.
-/
namespace CssHighlight

theorem lineBreak_cases {c : Char} (breaks : isLineBreak c = true) : c = '\n' ∨ c = '\r' := by
  simpa [isLineBreak] using breaks

theorem ne_of_isLineBreak {c x : Char} (breaks : isLineBreak c = true)
    (goesOn : isLineBreak x = false) : c ≠ x := by
  rintro rfl
  rw [breaks] at goesOn
  cases goesOn

theorem separator_cases {c : Char} (blank : isSeparator c = true) :
    c = ' ' ∨ c = '\t' ∨ c = '\n' ∨ c = '\r' ∨ c = '\x0c' ∨ c = '\x0b' := by
  simpa [isSeparator, or_assoc] using blank

/-! ### Characters that no rule looks beyond -/

/-- Characters that go on with no run: blanks, and the slash. -/
def isDull (c : Char) : Bool :=
  isSeparator c || c == '/'

theorem dull_cases {c : Char} (dull : isDull c = true) :
    c = ' ' ∨ c = '\t' ∨ c = '\n' ∨ c = '\r' ∨ c = '\x0c' ∨ c = '\x0b' ∨ c = '/' := by
  simpa [isDull, isSeparator, or_assoc] using dull

/-- A class of characters has no dull one when it has none of the seven. -/
theorem eq_false_of_isDull {p : Char → Bool}
    (none : [' ', '\t', '\n', '\r', '\x0c', '\x0b', '/'].any p = false) {c : Char}
    (dull : isDull c = true) : p c = false := by
  have member : c ∈ [' ', '\t', '\n', '\r', '\x0c', '\x0b', '/'] := by
    simpa using dull_cases dull
  exact Bool.eq_false_iff.mpr (List.any_eq_false.mp none c member)

theorem isSeparator_of_isLineBreak {c : Char} (breaks : isLineBreak c = true) :
    isSeparator c = true := by
  rcases lineBreak_cases breaks with rfl | rfl <;> rfl

theorem isDull_of_isSeparator {c : Char} (blank : isSeparator c = true) : isDull c = true := by
  simp [isDull, blank]

theorem isDull_of_isLineBreak {c : Char} (breaks : isLineBreak c = true) : isDull c = true :=
  isDull_of_isSeparator (isSeparator_of_isLineBreak breaks)

/-- Two characters of a class that both break the line, or both do not. -/
structure BothStop (stops : Char → Bool) (x y : Char) : Prop where
  left : stops x = true
  right : stops y = true
  breaks : isLineBreak x = isLineBreak y

theorem BothStop.of_lineBreak {x y : Char} (breaks : isLineBreak x = true)
    (breaks' : isLineBreak y = true) : BothStop isLineBreak x y :=
  ⟨breaks, breaks', breaks.trans breaks'.symm⟩

/-- Texts that agree up to a place where both have a character of a class. -/
inductive Glance (stops : Char → Bool) : List Char → List Char → Prop
  | refl (text : List Char) : Glance stops text text
  | stop {x y : Char} (both : BothStop stops x y) (rest rest' : List Char) :
      Glance stops (x :: rest) (y :: rest')
  | cons (c : Char) {rest rest' : List Char} (same : Glance stops rest rest') :
      Glance stops (c :: rest) (c :: rest')

namespace Glance

variable {stops : Char → Bool} {c c' x : Char} {text text' rest rest' : List Char}

theorem append (front : List Char) (same : Glance stops text text') :
    Glance stops (front ++ text) (front ++ text') := by
  induction front with
  | nil => exact same
  | cons c _ ih => exact .cons c ih

theorem weaken {wider : Char → Bool} (same : Glance stops text text')
    (wide : ∀ {x : Char}, stops x = true → wider x = true) : Glance wider text text' := by
  induction same with
  | refl text => exact .refl text
  | stop both rest rest' => exact .stop ⟨wide both.left, wide both.right, both.breaks⟩ rest rest'
  | cons c _ ih => exact .cons c ih

/-- Two texts begin with one character and agree behind it, or begin with two of the class. -/
theorem uncons (same : Glance stops (c :: rest) (c' :: rest')) :
    c = c' ∧ Glance stops rest rest' ∨ BothStop stops c c' := by
  cases same with
  | refl => exact .inl ⟨rfl, .refl rest⟩
  | stop both => exact .inr both
  | cons _ same => exact .inl ⟨rfl, same⟩

/-- What holds of no character of the class holds of the first characters of both texts or of
neither. -/
theorem any_eq {p : Char → Bool} (same : Glance stops text text')
    (other : ∀ {x : Char}, stops x = true → p x = false) :
    text.head?.any p = text'.head?.any p := by
  cases same with
  | refl => rfl
  | stop both =>
    show p _ = p _
    rw [other both.left, other both.right]
  | cons => rfl

theorem breaks_eq (same : Glance stops text text') :
    text.head?.any isLineBreak = text'.head?.any isLineBreak := by
  cases same with
  | refl => rfl
  | stop both => exact both.breaks
  | cons => rfl

/-- A character outside the class begins both texts or neither. -/
theorem next_iff (same : Glance stops text text') (goesOn : stops x = false) :
    text.head? = some x ↔ text'.head? = some x := by
  have other {y : Char} (stop : stops y = true) : some y ≠ some x := by
    rintro ⟨⟩
    rw [goesOn] at stop
    exact Bool.noConfusion stop
  cases same with
  | refl => exact Iff.rfl
  | stop both => exact iff_of_false (other both.left) (other both.right)
  | cons => exact Iff.rfl

/-- Behind a character outside the class the texts agree as before. -/
theorem tail (same : Glance stops text text') (first : text.head? = some x)
    (goesOn : stops x = false) : Glance stops text.tail text'.tail := by
  cases same with
  | refl => exact .refl _
  | stop both =>
    obtain rfl := Option.some.inj first
    exact absurd both.left (by simp [goesOn])
  | cons _ same => exact same

theorem behind (same : Glance stops (c :: rest) (c :: rest')) (goesOn : stops c = false) :
    Glance stops rest rest' :=
  same.tail rfl goesOn

/-- A word outside the class stands at the front of both texts or of neither. -/
theorem isPrefixOf_eq (same : Glance stops text text') (word : List Char)
    (goesOn : ∀ x ∈ word, stops x = false) :
    word.isPrefixOf text = word.isPrefixOf text' := by
  induction word generalizing text text' with
  | nil => simp
  | cons x word ih =>
    obtain ⟨first, others⟩ := List.forall_mem_cons.mp goesOn
    have different {y : Char} (stop : stops y = true) : (x == y) = false :=
      beq_false_of_ne fun equal => by
        rw [← equal, first] at stop
        exact Bool.noConfusion stop
    cases same with
    | refl => rfl
    | stop both =>
      simp only [List.isPrefixOf, different both.left, different both.right, Bool.false_and]
    | cons _ same => simp only [List.isPrefixOf, ih same others]

end Glance

/-! ### Looking for a solid character -/

/-- Two characters, or ends of text, of which the same marks hold. -/
def SameMark (marks : List Char) (x y : Option Char) : Prop :=
  ∀ mark ∈ marks, x = some mark ↔ y = some mark

instance (marks : List Char) (x y : Option Char) : Decidable (SameMark marks x y) :=
  List.decidableBAll (fun mark => x = some mark ↔ y = some mark) marks

/-- Two texts tell alike what a slash opens: it begins both or neither, so does another slash
behind it, and then the third characters decide alike about the comment. -/
structure SameSlash (c : Char) (rest : List Char) (c' : Char) (rest' : List Char) : Prop where
  both : c = '/' ∨ c' = '/' → c = c' ∧ Glance isDull rest rest'
  next : c = '/' → (rest.head? = some '/' ↔ rest'.head? = some '/')
  third : c = '/' → rest.head? = some '/' →
    SameMark ['!', '/'] rest.tail.head? rest'.tail.head?

/-- No slash begins the texts. -/
theorem SameSlash.of_ne {c c' : Char} {rest rest' : List Char} (first : c ≠ '/')
    (first' : c' ≠ '/') : SameSlash c rest c' rest' where
  both := fun slash => (slash.elim first first').elim
  next := fun slash => absurd slash first
  third := fun slash => absurd slash first

/-- Texts that agree up to a line break tell alike what a slash opens. -/
theorem Glance.slash {c : Char} {rest rest' : List Char}
    (same : Glance isLineBreak (c :: rest) (c :: rest')) : SameSlash c rest c rest' where
  both := by
    rintro (rfl | rfl) <;> exact ⟨rfl, (same.behind rfl).weaken isDull_of_isLineBreak⟩
  next := by
    rintro rfl
    exact (same.behind rfl).next_iff rfl
  third := by
    rintro rfl next mark member
    refine ((same.behind rfl).tail next rfl).next_iff ?_
    revert member
    simp only [List.mem_cons, List.not_mem_nil, or_false]
    rintro (rfl | rfl) <;> rfl

/-- The marks that decide whether the parenthesis behind a name opens a bare address. -/
def addressMarks : List Char := ['\'', '"', ')', '$']

/-- The marks that decide what a name stands for. -/
def nameMarks : List Char := [':', '(']

/-- The marks that matter behind a blank end of text: those that the name, or the parenthesis, in
front of the blanks asks for. -/
def marksBehind (before : List Char) : List Char :=
  match before.reverse.find? fun c => !isSeparator c with
  | none => []
  | some c => if c = '(' then addressMarks else if isRunChar c then nameMarks else []

/-- Marks of the first solid characters that decide at `c`, in front of two texts. -/
def SameSolid (c : Char) (rest rest' : List Char) : Prop :=
  if c = '(' then SameMark addressMarks (Machine.nextSolid rest) (Machine.nextSolid rest')
  else SameMark nameMarks (Machine.nextSolid (c :: rest)) (Machine.nextSolid (c :: rest'))

theorem SameMark.refl (marks : List Char) (x : Option Char) : SameMark marks x x :=
  fun _ _ => Iff.rfl

theorem SameSolid.refl (c : Char) (rest : List Char) : SameSolid c rest rest := by
  unfold SameSolid
  split <;> exact SameMark.refl _ _

end CssHighlight
