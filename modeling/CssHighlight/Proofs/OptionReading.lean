import Mathlib.Data.List.Basic
import CssHighlight.CommandLine.Conventional
import CssHighlight.Proofs.Obstacles

/-!
# The conventional frontend is lawful

It accepts a file only after it has looked it up, and ends a run itself with the help text, with the
version or for a wrong argument. The one thing that it cannot check is a path with a null character,
and such a path is a part of an argument.
-/
namespace CssHighlight.CommandLine

variable {p : Place} {arguments : List String} {a : Arguments} {uses : List OptionUse}
  {name text : String} {cause : FileError} {i : Invocation}

/-! ### Paths are parts of the arguments -/

/-- Every character of a text stands in some argument. -/
def Given (arguments : List String) (text : String) : Prop :=
  ∀ c ∈ text.toList, ∃ argument ∈ arguments, c ∈ argument.toList

theorem given_of_mem (member : text ∈ arguments) : Given arguments text :=
  fun _ held => ⟨text, member, held⟩

theorem Given.mono {arguments' : List String} (given : Given arguments text)
    (sub : arguments ⊆ arguments') : Given arguments' text := fun c held =>
  (given c held).imp fun _ ⟨member, held⟩ => ⟨sub member, held⟩

theorem given_splitValue {argument value : String} {rest : List String}
    (split : splitValue argument = (name, some value)) : Given (argument :: rest) value := by
  intro c held
  refine ⟨argument, List.mem_cons_self, ?_⟩
  rw [splitValue] at split
  simp only at split
  split at split
  next first behind found =>
    cases split
    rw [String.toList_ofList] at held
    have member : c ∈ argument.toList.dropWhile (· ≠ '=') :=
      found ▸ List.mem_cons_of_mem first held
    exact (List.dropWhile_sublist _).subset member
  next => cases split

/-- Only an option with a value holds a path, and the path is its value. -/
theorem keywordsValue_long {spelling : Spelling}
    (found : longSpellings.lookup name = some spelling) :
    match spelling with
    | .plain use => [use].filterMap OptionUse.keywordsValue? = []
    | .withValue use =>
      ∀ value, ∀ text ∈ [use value].filterMap OptionUse.keywordsValue?, text = value := by
  obtain ⟨_, _, table, -⟩ := List.lookup_eq_some_iff.mp found
  have member : (name, spelling) ∈ longSpellings := by
    rw [table]
    exact List.mem_append_right _ List.mem_cons_self
  simp only [longSpellings, List.mem_cons, Prod.mk.injEq, List.not_mem_nil, or_false] at member
  rcases member with ⟨-, rfl⟩ | ⟨-, rfl⟩ | ⟨-, rfl⟩ | ⟨-, rfl⟩ | ⟨-, rfl⟩ | ⟨-, rfl⟩ | ⟨-, rfl⟩ |
    ⟨-, rfl⟩ <;> simp [OptionUse.keywordsValue?]

theorem keywordsValue_short {letters : List Char} (read : shortUses letters = .ok uses) :
    uses.filterMap OptionUse.keywordsValue? = [] := by
  induction letters generalizing uses with
  | nil =>
    cases read
    rfl
  | cons letter rest ih =>
    rw [shortUses, List.mapM_cons] at read
    obtain ⟨use, first, read⟩ := bind_ok read
    obtain ⟨others, further, read⟩ := bind_ok read
    cases read
    have verbose : use = .verbose := by
      split at first
      next known =>
        cases first
        simp only [shortSpellings, List.lookup_cons, List.lookup_nil] at known
        split at known <;> cases known
        rfl
      next => cases first
    rw [verbose, List.filterMap_cons_none rfl]
    exact ih further

/-- The paths of some uses and of the arguments behind them. -/
theorem given_withUses {rest : List String}
    (read : (Arguments.read rest).map (Arguments.withUses uses) = .ok a) (member : text ∈ a.paths)
    (sub : rest ⊆ arguments) (here : text ∈ uses.filterMap OptionUse.keywordsValue? →
      Given arguments text)
    (behind : ∀ {a : Arguments}, Arguments.read rest = .ok a → text ∈ a.paths → Given rest text) :
    Given arguments text := by
  obtain ⟨others, further, rfl⟩ := map_ok read
  have split : text ∈ uses.filterMap OptionUse.keywordsValue? ∨ text ∈ others.paths := by
    simp only [Arguments.paths, Arguments.withUses, List.filterMap_append, List.mem_append]
      at member ⊢
    tauto
  rcases split with mine | member
  · exact here mine
  · exact (behind further member).mono sub

/-- Every path is an argument or a part of one. -/
theorem given_of_read (read : Arguments.read arguments = .ok a) (member : text ∈ a.paths) :
    Given arguments text := by
  fun_induction Arguments.read arguments generalizing a
  case case1 =>
    cases read
    cases member
  case case2 rest =>
    cases read
    simp only [Arguments.paths, List.filterMap_nil, List.append_nil] at member
    exact given_of_mem (List.mem_cons_of_mem _ member)
  case case3 known _ ih =>
    refine given_withUses read member (List.subset_cons_self ..) (fun held => ?_) ih
    rw [keywordsValue_long known] at held
    cases held
  -- The value stands behind an equals sign of the argument, or it is the next argument.
  case case5 value known split ih =>
    refine given_withUses read member (List.subset_cons_self ..) (fun held => ?_) ih
    rw [keywordsValue_long known value text held]
    exact given_splitValue split
  case case6 known value rest split ih =>
    refine given_withUses read member (fun _ member => by simp [member]) (fun held => ?_) ih
    rw [keywordsValue_long known value text held]
    exact given_of_mem (by simp)
  case case10 known ih =>
    refine given_withUses read member (List.subset_cons_self ..) (fun held => ?_) ih
    rw [keywordsValue_short known] at held
    cases held
  case case11 ih =>
    obtain ⟨others, further, rfl⟩ := map_ok read
    rcases List.mem_cons.mp member with rfl | member
    · exact given_of_mem List.mem_cons_self
    · exact (ih further member).mono (List.subset_cons_self ..)
  -- What is left are wrong spellings.
  all_goals cases read

/-! ### What is checked -/

theorem checkFile_path (failed : checkFile p name text = .error (.path cause)) :
    '\x00' ∈ text.toList := by
  rw [checkFile] at failed
  split at failed
  next => cases failed
  next => cases failed
  next => cases failed
  next cause other missing =>
    rcases Place.stat_error missing with ⟨-, null⟩ | ⟨reason, rfl⟩
    · exact null
    · exact absurd rfl (other reason text)

theorem checkFile_ok (passed : checkFile p name text = .ok ()) :
    ∃ entry, p.stat text = .ok entry := by
  rw [checkFile] at passed
  split at passed
  next => cases passed
  next entry _ found => exact ⟨entry, found⟩
  next => cases passed
  next => cases passed

theorem choose_ne_path {choices : List String} {value : Option String} :
    choose name choices value ≠ .error (.path cause) := by
  intro failed
  unfold choose at failed
  split at failed
  next => cases failed
  next => split at failed <;> cases failed

theorem chosenKeywords_path (failed : chosenKeywords p uses = .error (.path cause)) :
    ∃ text ∈ uses.filterMap OptionUse.keywordsValue?, '\x00' ∈ text.toList := by
  rw [chosenKeywords] at failed
  split at failed
  next => cases failed
  next text given =>
    exact ⟨text, List.mem_of_getLast? given, checkFile_path (map_error failed)⟩

theorem checkUse_path {use : OptionUse} (failed : checkUse p uses use = .error (.path cause)) :
    ∃ text ∈ uses.filterMap OptionUse.keywordsValue?, '\x00' ∈ text.toList := by
  unfold checkUse at failed
  split at failed
  next => exact absurd (map_error failed) choose_ne_path
  next => exact absurd (map_error failed) choose_ne_path
  next => exact chosenKeywords_path (map_error failed)
  next => cases failed

/-- The options are checked one by one, each for the value that counts. -/
theorem checkUses_path {checked : List OptionUse}
    (failed : (forIn checked PUnit.unit fun use _ => do
      checkUse p uses use
      pure (ForInStep.yield PUnit.unit)) = .error (.path cause)) :
    ∃ text ∈ uses.filterMap OptionUse.keywordsValue?, '\x00' ∈ text.toList := by
  induction checked with
  | nil => cases failed
  | cons use rest ih =>
    rw [List.forIn_cons] at failed
    rcases bind_error failed with failed | ⟨_, passed, failed⟩
    · rcases bind_error failed with failed | ⟨_, _, failed⟩
      · exact checkUse_path failed
      · cases failed
    · obtain ⟨_, _, passed⟩ := bind_ok passed
      cases passed
      exact ih failed

theorem invocation_path (failed : a.invocation p = .error (.path cause)) :
    ∃ text ∈ a.paths, '\x00' ∈ text.toList := by
  have options (held : ∃ text ∈ a.uses.filterMap OptionUse.keywordsValue?, '\x00' ∈ text.toList) :
      ∃ text ∈ a.paths, '\x00' ∈ text.toList :=
    held.imp fun _ ⟨member, null⟩ => ⟨List.mem_append_right _ member, null⟩
  unfold Arguments.invocation at failed
  rcases bind_error failed with failed | ⟨_, _, failed⟩
  · exact options (checkUses_path failed)
  · split at failed
    next => cases failed
    next file extra files =>
      rcases bind_error failed with failed | ⟨_, _, failed⟩
      · have member : file ∈ a.files := files ▸ List.mem_cons_self
        exact ⟨file, List.mem_append_left _ member, checkFile_path failed⟩
      · simp only at failed
        split at failed
        next => cases failed
        next =>
          rcases bind_error failed with failed | ⟨_, _, failed⟩
          · exact absurd failed choose_ne_path
          rcases bind_error failed with failed | ⟨_, _, failed⟩
          · exact absurd failed choose_ne_path
          rcases bind_error failed with failed | ⟨_, _, failed⟩
          · exact options (chosenKeywords_path failed)
          · cases failed

theorem invocation_ok (done : a.invocation p = .ok i) : checkFile p "FILEPATH" i.file = .ok () := by
  unfold Arguments.invocation at done
  obtain ⟨_, _, done⟩ := bind_ok done
  split at done
  next => cases done
  next file extra _ =>
    obtain ⟨_, passed, done⟩ := bind_ok done
    simp only at done
    split at done
    next => cases done
    next =>
      obtain ⟨_, _, done⟩ := bind_ok done
      obtain ⟨_, _, done⟩ := bind_ok done
      obtain ⟨_, _, done⟩ := bind_ok done
      cases done
      exact passed

/-! ### The laws -/

namespace Frontend

theorem conventional_accepted (accepted : conventional.read p arguments = .accepted i) :
    ∃ entry, p.stat i.file = .ok entry := by
  simp only [conventional] at accepted
  split at accepted
  next => cases accepted
  next a _ =>
    rw [answer] at accepted
    split at accepted
    next => cases accepted
    next =>
      split at accepted <;> cases accepted
      next done => exact checkFile_ok (invocation_ok done)

theorem conventional_failed (failed : conventional.read p arguments = .failed cause) :
    ∃ argument ∈ arguments, '\x00' ∈ argument.toList := by
  simp only [conventional] at failed
  split at failed
  next => cases failed
  next a read =>
    rw [answer] at failed
    split at failed
    next => cases failed
    next =>
      split at failed <;> cases failed
      next refused =>
        obtain ⟨text, member, null⟩ := invocation_path refused
        exact given_of_read read member _ null

theorem conventional_ended {ending : Ending}
    (ended : conventional.read p arguments = .ended ending) :
    ending.exitCode = 0 ∨ ending.exitCode = 2 := by
  simp only [conventional] at ended
  split at ended
  next =>
    cases ended
    exact .inr rfl
  next a _ =>
    rw [answer] at ended
    split at ended
    next =>
      cases ended
      exact .inl rfl
    next =>
      split at ended <;> cases ended
      exact .inr rfl

theorem conventional_lawful (p : Place) : conventional.Lawful p where
  file := conventional_accepted
  failed := conventional_failed
  ended := conventional_ended
  misuse _ := rfl
  plain _ := rfl

end Frontend

end CssHighlight.CommandLine
