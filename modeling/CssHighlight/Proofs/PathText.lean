import Mathlib.Data.List.Basic
import CssHighlight.Files.Resolve

/-!
# Texts of paths

A path and its text tell the same. The names of a path are the pieces of its text between slashes,
less the empty ones, and a walk along the text takes one step for each of them.
-/
namespace CssHighlight

/-- A name that an entry of a file tree can have. -/
structure IsName (name : String) : Prop where
  given : name ≠ ""
  noSlash : '/' ∉ name.toList
  noNull : '\x00' ∉ name.toList
  noDot : name ≠ "."
  noDots : name ≠ ".."
  fits : name.utf8ByteSize ≤ maxNameBytes

/-- A path as it is read from a text. -/
structure Path.IsPlain (path : Path) : Prop where
  root : path.root ∈ ["", "/", "//"]
  given : ∀ name ∈ path.names, name ≠ ""
  noSlash : ∀ name ∈ path.names, '/' ∉ name.toList
  noDot : ∀ name ∈ path.names, name ≠ "."

/-! ### Pieces between slashes -/

section Pieces

variable {text name : String} {names : List String}

theorem piecesFrom_eq (separates : Char → Bool) (piece chars : List Char) :
    Text.piecesFrom separates piece chars =
      ((List.splitOnPPrepend separates chars piece).filter (· ≠ [])).map String.ofList := by
  induction chars generalizing piece with
  | nil =>
    rw [Text.piecesFrom, List.splitOnPPrepend_nil]
    cases piece <;> simp
  | cons c rest ih =>
    rw [Text.piecesFrom, List.splitOnPPrepend_cons_eq_if]
    split
    next =>
      rw [ih, List.splitOnPPrepend_nil_right]
      cases piece <;> simp
    next => exact ih _

theorem namesOf_eq (text : String) :
    Path.namesOf text = ((text.toList.splitOn '/').filter (· ≠ [])).map String.ofList := by
  rw [Path.namesOf, Text.pieces, piecesFrom_eq, List.splitOnPPrepend_nil_right,
    List.splitOn_eq_splitOnP]

/-- The characters of a piece are those of the text that are no slashes. -/
theorem mem_of_mem_splitOn {chars piece : List Char} {c : Char}
    (h : piece ∈ chars.splitOn '/') (held : c ∈ piece) : c ∈ chars ∧ c ≠ '/' := by
  induction chars generalizing piece with
  | nil =>
    rw [List.splitOn_nil, List.mem_singleton] at h
    exact absurd (h ▸ held) List.not_mem_nil
  | cons first rest ih =>
    have later {piece : List Char} (h : piece ∈ rest.splitOn '/') (held : c ∈ piece) :
        c ∈ first :: rest ∧ c ≠ '/' :=
      ⟨List.mem_cons_of_mem _ (ih h held).1, (ih h held).2⟩
    rw [List.splitOn_cons_eq_if_modifyHead] at h
    split at h
    next =>
      rcases List.mem_cons.mp h with rfl | h
      · exact absurd held List.not_mem_nil
      · exact later h held
    next other =>
      cases pieces : rest.splitOn '/' with
      | nil => exact absurd pieces (List.splitOn_ne_nil _ _)
      | cons head others =>
        rw [pieces, List.modifyHead_cons] at h
        rcases List.mem_cons.mp h with rfl | h
        · rcases List.mem_cons.mp held with rfl | held
          · exact ⟨List.mem_cons_self, by simpa using other⟩
          · exact later (pieces ▸ List.mem_cons_self) held
        · exact later (pieces ▸ List.mem_cons_of_mem _ h) held

theorem mem_of_mem_namesOf {c : Char} (h : name ∈ Path.namesOf text) (held : c ∈ name.toList) :
    c ∈ text.toList ∧ c ≠ '/' := by
  rw [namesOf_eq] at h
  obtain ⟨piece, found, rfl⟩ := List.mem_map.mp h
  rw [String.toList_ofList] at held
  exact mem_of_mem_splitOn (List.mem_filter.mp found).1 held

theorem namesOf_given (h : name ∈ Path.namesOf text) : name ≠ "" := by
  rw [namesOf_eq] at h
  obtain ⟨piece, found, rfl⟩ := List.mem_map.mp h
  simpa using (List.mem_filter.mp found).2

theorem namesOf_noSlash (h : name ∈ Path.namesOf text) : '/' ∉ name.toList :=
  fun held => (mem_of_mem_namesOf h held).2 rfl

theorem namesOf_intercalate (given : ∀ name ∈ names, name ≠ "")
    (noSlash : ∀ name ∈ names, '/' ∉ name.toList) :
    Path.namesOf ("/".intercalate names) = names := by
  cases names with
  | nil => rfl
  | cons name rest =>
    rw [namesOf_eq, String.toList_intercalate, show "/".toList = ['/'] from rfl,
      List.splitOn_intercalate _ (by simpa using noSlash) (by simp),
      List.filter_eq_self.mpr (by simpa using given), List.map_map]
    simp

theorem namesOf_slash : Path.namesOf ("/" ++ text) = Path.namesOf text := by
  rw [namesOf_eq, namesOf_eq, String.toList_append, show "/".toList = ['/'] from rfl,
    List.singleton_append, List.splitOn_cons_eq_if_modifyHead]
  simp

theorem mem_intercalate {c : Char} (held : c ∈ ("/".intercalate names).toList) :
    c = '/' ∨ ∃ name ∈ names, c ∈ name.toList := by
  induction names with
  | nil => simp at held
  | cons name rest ih =>
    cases rest with
    | nil =>
      rw [String.intercalate_singleton] at held
      exact .inr ⟨name, List.mem_cons_self, held⟩
    | cons next rest =>
      rw [String.intercalate_cons_cons, String.toList_append, String.toList_append] at held
      rcases List.mem_append.mp held with held | held
      · rcases List.mem_append.mp held with held | slash
        · exact .inr ⟨name, List.mem_cons_self, held⟩
        · exact .inl (by simpa using slash)
      · rcases ih held with slash | ⟨other, member, held⟩
        · exact .inl slash
        · exact .inr ⟨other, List.mem_cons_of_mem _ member, held⟩

end Pieces

/-! ### The text of a path -/

section Ends

variable {names : List String} (given : ∀ name ∈ names, name ≠ "")
  (noSlash : ∀ name ∈ names, '/' ∉ name.toList)

include given noSlash

theorem intercalate_ne (some : names ≠ []) : "/".intercalate names ≠ "" := fun empty =>
  some (by rw [← namesOf_intercalate given noSlash, empty]; rfl)

/-- Names that follow each other start without a slash. -/
theorem head_intercalate_ne : ("/".intercalate names).toList.head? ≠ some '/' := by
  cases names with
  | nil => simp
  | cons name rest =>
    have held : name.toList ≠ [] := by simpa using given name List.mem_cons_self
    obtain ⟨c, others, chars⟩ := List.exists_cons_of_ne_nil held
    intro slash
    have first : c = '/' := by
      cases rest with
      | nil => simpa [chars] using slash
      | cons next rest =>
        rw [String.intercalate_cons_cons] at slash
        simpa [String.toList_append, chars] using slash
    exact noSlash name List.mem_cons_self (by simp [chars, first])

theorem getLast_intercalate_ne : ("/".intercalate names).toList.getLast? ≠ some '/' := by
  rcases List.eq_nil_or_concat' names with rfl | ⟨above, name, rfl⟩
  · simp
  · have member : name ∈ above ++ [name] := List.mem_append_right _ List.mem_cons_self
    have held : name.toList ≠ [] := by simpa using given name member
    intro slash
    have last : name.toList.getLast? = some '/' := by
      cases above with
      | nil => simpa using slash
      | cons first rest =>
        rw [String.intercalate_append_of_ne_nil (by simp) (by simp),
          String.intercalate_singleton] at slash
        rwa [String.toList_append, List.getLast?_append_of_ne_nil _ held] at slash
    exact noSlash name member (List.mem_of_getLast? last)

end Ends

section Text

variable {text name : String} {names : List String} {path : Path}

theorem ofText_isPlain (text : String) : (Path.ofText text).IsPlain where
  root := by
    rw [Path.ofText]
    split <;> simp
  given name h := namesOf_given (List.mem_filter.mp h).1
  noSlash name h := namesOf_noSlash (List.mem_filter.mp h).1
  noDot name h := by simpa using (List.mem_filter.mp h).2

namespace Path.IsPlain

variable (plain : path.IsPlain)

include plain

theorem toText_eq : path.toText =
    if path.root = "" ∧ path.names = [] then "." else path.root ++ "/".intercalate path.names := by
  rw [Path.toText]
  by_cases none : path.names = []
  · simp [none]
  · have some := intercalate_ne plain.given plain.noSlash none
    simp [none, some]

theorem toText_ne : path.toText ≠ "" := by
  rw [plain.toText_eq]
  split
  next => decide
  next some =>
    intro empty
    have both := String.append_eq_empty_iff.mp empty
    exact some ⟨both.1, by_contra fun none => intercalate_ne plain.given plain.noSlash none both.2⟩

theorem namesOf_toText (some : path.names ≠ []) : Path.namesOf path.toText = path.names := by
  have names := namesOf_intercalate plain.given plain.noSlash
  rw [plain.toText_eq, if_neg fun none => some none.2]
  have root := plain.root
  simp only [List.mem_cons, List.not_mem_nil, or_false] at root
  rcases root with root | root | root
  · rw [root, String.empty_append, names]
  · rw [root, namesOf_slash, names]
  · rw [root, show "//" = "/" ++ "/" from rfl, String.append_assoc, namesOf_slash, namesOf_slash,
      names]

theorem toText_of_nameless (none : path.names = []) : path.toText ∈ [".", "/", "//"] := by
  have root := plain.root
  simp only [List.mem_cons, List.not_mem_nil, or_false] at root
  rw [plain.toText_eq, none]
  rcases root with root | root | root <;> rw [root] <;> decide

/-- A walk along the text takes one step for each name. -/
theorem stepsOf_toText :
    FileTree.stepsOf path.toText = if path.names = [] then ["."] else path.names := by
  by_cases none : path.names = []
  · have text := plain.toText_of_nameless none
    simp only [List.mem_cons, List.not_mem_nil, or_false] at text
    rw [if_pos none]
    rcases text with text | text | text <;> rw [text] <;> rfl
  · have nonempty := intercalate_ne plain.given plain.noSlash none
    have behind : path.toText.toList.getLast? ≠ some '/' := by
      rw [plain.toText_eq, if_neg fun both => none both.2, String.toList_append,
        List.getLast?_append_of_ne_nil _ (by rwa [Ne, String.toList_eq_nil_iff])]
      exact getLast_intercalate_ne plain.given plain.noSlash
    rw [if_neg none, FileTree.stepsOf, if_neg (by simpa using behind), plain.namesOf_toText none]

/-- The characters of a text are slashes, dots and those of its names. -/
theorem mem_toText {c : Char} (held : c ∈ path.toText.toList) :
    c = '/' ∨ c = '.' ∨ ∃ name ∈ path.names, c ∈ name.toList := by
  by_cases none : path.names = []
  · have text := plain.toText_of_nameless none
    simp only [List.mem_cons, List.not_mem_nil, or_false] at text
    rcases text with text | text | text <;> rw [text] at held <;> simp at held <;> simp [held]
  · rw [plain.toText_eq, if_neg fun both => none both.2, String.toList_append] at held
    have root := plain.root
    simp only [List.mem_cons, List.not_mem_nil, or_false] at root
    rcases List.mem_append.mp held with held | held
    · rcases root with root | root | root <;> rw [root] at held <;> simp at held <;> simp [held]
    · rcases mem_intercalate held with slash | found
      · exact .inl slash
      · exact .inr (.inr found)

theorem noNull_toText (noNull : ∀ name ∈ path.names, '\x00' ∉ name.toList) :
    '\x00' ∉ path.toText.toList := by
  intro null
  rcases plain.mem_toText null with slash | dot | ⟨name, member, held⟩
  · exact absurd slash (by decide)
  · exact absurd dot (by decide)
  · exact noNull name member held

theorem takeWhile_toText : path.toText.toList.takeWhile (· == '/') = path.root.toList := by
  have behind : ("/".intercalate path.names).toList.takeWhile (· == '/') = [] := by
    have head := head_intercalate_ne plain.given plain.noSlash
    cases chars : ("/".intercalate path.names).toList with
    | nil => rfl
    | cons c rest => exact List.takeWhile_cons_of_neg (by simpa [chars] using head)
  rw [plain.toText_eq]
  have root := plain.root
  simp only [List.mem_cons, List.not_mem_nil, or_false] at root
  split
  next none =>
    rw [none.1]
    rfl
  next =>
    rcases root with root | root | root <;> rw [root, String.toList_append]
    · exact behind
    · exact congrArg ('/' :: ·) behind
    · exact congrArg ('/' :: '/' :: ·) behind

theorem isRooted_toText : Path.isRooted path.toText = path.isAbsolute := by
  have root := plain.takeWhile_toText
  rw [Path.isRooted, Path.isAbsolute]
  cases chars : path.toText.toList with
  | nil => exact absurd (String.toList_eq_nil_iff.mp chars) plain.toText_ne
  | cons c rest =>
    rw [chars] at root
    by_cases slash : c = '/'
    · rw [slash, List.takeWhile_cons_of_pos (by simp)] at root
      have some : path.root ≠ "" := fun none => by simp [none] at root
      simp [slash, some]
    · rw [List.takeWhile_cons_of_neg (by simpa using slash)] at root
      have none : path.root = "" := String.toList_eq_nil_iff.mp root.symm
      simp [slash, none]

theorem ofText_toText : Path.ofText path.toText = path := by
  have names : (Path.namesOf path.toText).filter (· ≠ ".") = path.names := by
    by_cases none : path.names = []
    · have text := plain.toText_of_nameless none
      simp only [List.mem_cons, List.not_mem_nil, or_false] at text
      rw [none]
      rcases text with text | text | text <;> rw [text] <;> rfl
    · rw [plain.namesOf_toText none]
      exact List.filter_eq_self.mpr (by simpa using plain.noDot)
  obtain ⟨root, inner⟩ := path
  simp only [Path.ofText, plain.takeWhile_toText, names, Path.mk.injEq, and_true]
  have roots := plain.root
  simp only [List.mem_cons, List.not_mem_nil, or_false] at roots
  rcases roots with rfl | rfl | rfl <;> rfl

end Path.IsPlain

/-- The steps that lead elsewhere. -/
def moves (steps : List String) : List String :=
  steps.filter fun step => step ≠ "" ∧ step ≠ "."

theorem moves_stepsOf (text : String) :
    moves (FileTree.stepsOf text) = moves (Path.namesOf text) := by
  rw [FileTree.stepsOf]
  split
  next => simp [moves]
  next => rfl

theorem moves_ofText (text : String) :
    moves (FileTree.stepsOf text) = moves (Path.ofText text).names := by
  rw [moves_stepsOf, moves, moves, Path.ofText, List.filter_filter]
  congr 1
  funext step
  simp +contextual

theorem isAbsolute_ofText (text : String) :
    (Path.ofText text).isAbsolute = Path.isRooted text := by
  rw [Path.isAbsolute, Path.ofText, Path.isRooted]
  cases text.toList with
  | nil => rfl
  | cons c rest =>
    by_cases slash : c = '/'
    · rw [slash, List.takeWhile_cons_of_pos (by simp)]
      split
      next none => simp at none
      next => rfl
      next => rfl
    · rw [List.takeWhile_cons_of_neg (by simpa using slash)]
      simp [slash]

theorem length_splitOn (chars : List Char) : (chars.splitOn '/').length ≤ chars.length + 1 := by
  induction chars with
  | nil => simp
  | cons c rest ih =>
    rw [List.splitOn_cons_eq_if_modifyHead]
    split
    · simpa using ih
    · simp only [List.length_modifyHead, List.length_cons]
      omega

/-- The target of a link names the same steps for a walk and for a resolution. -/
theorem ofTarget_eq (target : String) : ∃ names, PathStep.ofTarget target = names.map .enter ∧
    names.length ≤ target.length + 1 ∧ (∀ name ∈ names, '/' ∉ name.toList) ∧
      moves (FileTree.stepsOf target) = moves names := by
  have noSlash : ∀ name ∈ (target.toList.splitOn '/').map String.ofList, '/' ∉ name.toList := by
    intro name member slash
    obtain ⟨piece, found, rfl⟩ := List.mem_map.mp member
    rw [String.toList_ofList] at slash
    exact (mem_of_mem_splitOn found slash).2 rfl
  have length : ((target.toList.splitOn '/').map String.ofList).length ≤ target.length + 1 := by
    simpa [String.length_toList] using length_splitOn target.toList
  have same : moves (FileTree.stepsOf target) =
      moves ((target.toList.splitOn '/').map String.ofList) := by
    rw [moves_stepsOf, namesOf_eq, moves, moves, List.filter_map, List.filter_map,
      List.filter_filter]
    congr 2
    funext piece
    simp +contextual
  by_cases rooted : Path.isRooted target
  · refine ⟨((target.toList.splitOn '/').map String.ofList).drop 1, ?_, ?_,
      fun name member => noSlash name (List.mem_of_mem_drop member), ?_⟩
    · rw [PathStep.ofTarget, if_pos rooted]
    · rw [List.length_drop]
      omega
    · -- In front of the first slash there is an empty name.
      rw [same]
      cases chars : target.toList with
      | nil => simp [Path.isRooted, chars] at rooted
      | cons c rest =>
        have slash : c = '/' := by simpa [Path.isRooted, chars] using rooted
        rw [List.splitOn_cons_eq_if_modifyHead, if_pos (by simp [slash])]
        rfl
  · exact ⟨_, by rw [PathStep.ofTarget, if_neg rooted], length, noSlash, same⟩

end Text

end CssHighlight
