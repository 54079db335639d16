import CssHighlight.Proofs.Straight

/-!
# Changes of files

Writing and removing files keeps a place well-formed: a file is put below an existing directory and
never in the place of one, and what is removed holds nothing.
-/
namespace CssHighlight

namespace FileTree

variable {tree : FileTree} {place above here there steps : List String} {name : String}
  {entry : Entry}

/-! ### Single entries -/

theorem entry?_eq (tree : FileTree) (place : List String) :
    tree.entry? place =
      if place = [] then some .directory else (tree.entries.find? (·.1 == place)).map (·.2) := by
  unfold entry?
  cases place <;> rfl

theorem wellFormed_nil : (FileTree.mk []).WellFormed := by
  refine ⟨fun held => ?_, fun held => ?_, fun held => ?_⟩ <;>
    rw [entry?_eq] at held <;> split at held <;> simp_all

/-- An entry in an existing directory is put there and nowhere else. -/
theorem entry?_insert (wf : tree.WellFormed) (inside : tree.entry? above = some .directory)
    (name : String) (entry : Entry) (place : List String) :
    FileTree.entry? (tree.insert (above ++ [name]) entry) place =
      if place = above ++ [name] then some entry else tree.entry? place := by
  -- All directories above are there, so none is made on the way.
  have existing : (List.range (above ++ [name]).length).filterMap (fun n =>
      if (tree.entry? ((above ++ [name]).take n)).isSome then none
      else some ((above ++ [name]).take n, Entry.directory)) = [] := by
    refine List.filterMap_eq_nil_iff.mpr fun n member => ?_
    have higher : n ≤ above.length := by simpa [Nat.lt_succ_iff] using member
    have held : tree.entry? ((above ++ [name]).take n) = some .directory := by
      rw [List.take_append_of_le_length higher]
      rcases Nat.lt_or_eq_of_le higher with higher | rfl
      · exact wf.take inside higher
      · rwa [List.take_length]
    rw [held]
    rfl
  have others : (tree.entries.filter (·.1 ≠ above ++ [name])).find? (·.1 == place) =
      if place = above ++ [name] then none else tree.entries.find? (·.1 == place) := by
    rw [List.find?_filter]
    split
    next same =>
      refine List.find?_eq_none.mpr fun entry _ => ?_
      simp [same]
    next different =>
      congr 1
      funext entry
      by_cases found : entry.1 = place <;> simp [found, different]
  rw [insert]
  simp only [existing, List.append_nil]
  rw [entry?_eq, entry?_eq tree, List.find?_append, others, List.find?_singleton]
  by_cases same : place = above ++ [name]
  · simp [same]
  · have other : ((above ++ [name]) == place) = false := by simpa using Ne.symm same
    rw [if_neg same, if_neg same, other]
    simp

/-- What is removed goes with everything below it. -/
theorem entry?_erase (given : place ≠ []) (other : List String) :
    FileTree.entry? (tree.erase place) other =
      if place <+: other then none else tree.entry? other := by
  rw [erase, entry?_eq, entry?_eq tree, List.find?_filter]
  by_cases root : other = []
  · have above : ¬place <+: other := by simpa [root] using given
    rw [if_pos root, if_neg above, if_pos root]
  · rw [if_neg root, if_neg root]
    split
    next below =>
      refine Option.map_eq_none_iff.mpr (List.find?_eq_none.mpr fun entry _ => ?_)
      by_cases found : entry.1 = other <;> simp [found, List.isPrefixOf_iff_prefix.mpr below]
    next apart =>
      have kept : place.isPrefixOf other = false :=
        Bool.eq_false_iff.mpr (mt List.isPrefixOf_iff_prefix.mp apart)
      congr 2
      funext entry
      by_cases found : entry.1 = other <;> simp [found, kept]

/-- A file or a directory can be put below a directory, as long as no directory gets lost. -/
theorem WellFormed.insert (wf : tree.WellFormed) (inside : tree.entry? above = some .directory)
    (isName : IsName name) (unlinked : ∀ target, entry ≠ .link target)
    (kept : tree.entry? (above ++ [name]) = some .directory → entry = .directory) :
    (tree.insert (above ++ [name]) entry).WellFormed where
  above {place other found} held := by
    rw [entry?_insert wf inside] at held ⊢
    split at held
    next same =>
      obtain ⟨rfl, -⟩ := List.append_inj' same rfl
      rwa [if_neg (by simp)]
    next =>
      -- The directory above is the new entry itself if it was a directory before.
      have parent := wf.above held
      split
      next same => rw [kept (same ▸ parent)]
      next => exact parent
  isName {place other found} held := by
    rw [entry?_insert wf inside] at held
    split at held
    next same =>
      obtain ⟨-, last⟩ := List.append_inj' same rfl
      exact List.cons.inj last |>.1 ▸ isName
    next => exact wf.isName held
  noNull {place target} held := by
    rw [entry?_insert wf inside] at held
    split at held
    next => exact absurd (Option.some.inj held) (unlinked target)
    next => exact wf.noNull held

/-- A tree from which an entry is taken, with all that lies below it, stays well-formed. -/
theorem WellFormed.erase (wf : tree.WellFormed) (given : place ≠ []) :
    (tree.erase place).WellFormed where
  above {above name found} held := by
    rw [entry?_erase given] at held ⊢
    split at held
    next => cases held
    next apart =>
      rw [if_neg fun higher => apart (higher.trans (List.prefix_append _ _))]
      exact wf.above held
  isName {above name found} held := by
    rw [entry?_erase given] at held
    split at held
    next => cases held
    next => exact wf.isName held
  noNull {place target} held := by
    rw [entry?_erase given] at held
    split at held
    next => cases held
    next => exact wf.noNull held

/-! ### Ways to a file -/

/-- Texts that stand between slashes in a path that the system accepts. -/
structure IsStep (step : String) : Prop where
  given : step ≠ ""
  noSlash : '/' ∉ step.toList
  noNull : '\x00' ∉ step.toList

theorem IsStep.isName (isStep : IsStep name) (noDot : name ≠ ".") (noDots : name ≠ "..")
    (fits : name.utf8ByteSize ≤ maxNameBytes) : IsName name :=
  ⟨isStep.given, isStep.noSlash, isStep.noNull, noDot, noDots, fits⟩

theorem isStep_of_namesOf {text : String} (noNull : '\x00' ∉ text.toList)
    (member : name ∈ Path.namesOf text) : IsStep name :=
  ⟨namesOf_given member, namesOf_noSlash member,
    fun null => noNull (mem_of_mem_namesOf member null).1⟩

theorem isStep_of_stepsOf {text : String} (noNull : '\x00' ∉ text.toList)
    (member : name ∈ stepsOf text) : IsStep name := by
  have names {name : String} (member : name ∈ Path.namesOf text) :=
    isStep_of_namesOf noNull member
  rw [stepsOf] at member
  split at member
  next =>
    rcases List.mem_append.mp member with member | dot
    · exact names member
    · rw [List.mem_singleton.mp dot]
      exact ⟨by decide, by decide, by decide⟩
  next => exact names member

/-- A file that is opened for writing lies in an existing directory, and is none itself. -/
theorem landing_ok {links : Nat} (wf : tree.WellFormed) (proper : ∀ step ∈ steps, IsStep step)
    (landed : tree.landing links here steps = .ok place) :
    ∃ above name, place = above ++ [name] ∧ tree.entry? above = some .directory ∧ IsName name ∧
      tree.entry? place ≠ some .directory := by
  induction links generalizing here steps with
  | zero => cases landed
  | succ links ih =>
    rw [landing] at landed
    split at landed
    next => cases landed
    next above name walked last =>
      have isStep := proper name (List.mem_of_getLast? last)
      have inside := entry?_of_walk walked
      dsimp only at landed
      split at landed
      next => cases landed
      next moving =>
        split at landed
        next => cases landed
        next fits =>
          split at landed
          next => cases landed
          next target link =>
            -- A link in the place of the file is followed, even to where there is nothing yet.
            exact ih (fun step member => isStep_of_stepsOf (wf.noNull link) member) landed
          next noDirectory _ =>
            cases landed
            exact ⟨above, name, rfl, inside, isStep.isName (not_or.mp moving).1 (not_or.mp moving).2
              (Nat.not_lt.mp fits), noDirectory⟩
    next => cases landed

/-- A name behind which a walk finds nothing is not one of those that always lead somewhere. -/
theorem isName_of_noEntry {links : Nat} (wf : tree.WellFormed)
    (inside : tree.entry? here = some .directory) (isStep : IsStep name)
    (walked : tree.walk true (links + 1) here [name] = .error .noEntry) : IsName name := by
  rw [walk, walkWith, inside] at walked
  dsimp only at walked
  split at walked
  next =>
    rw [walkWith, inside] at walked
    cases walked
  next noDot =>
    split at walked
    next =>
      rw [walkWith, wf.dropLast inside] at walked
      cases walked
    next noDots =>
      split at walked
      next => cases walked
      next fits => exact isStep.isName noDot noDots (Nat.not_lt.mp fits)

/-- On the way to a file a directory is entered, or made where there was nothing. -/
theorem enter_ok {tree' : FileTree} (wf : tree.WellFormed)
    (inside : tree.entry? here = some .directory) (isStep : IsStep name)
    (entered : enter (tree, here) name = .ok (tree', there)) :
    tree'.WellFormed ∧ tree'.entry? there = some .directory ∧
      ∀ place, tree.entry? place = some .directory → tree'.entry? place = some .directory := by
  rw [enter] at entered
  dsimp only at entered
  split at entered
  next walked =>
    cases entered
    exact ⟨wf, entry?_of_walk walked, fun _ held => held⟩
  next => cases entered
  next walked =>
    split at entered
    next => cases entered
    next free =>
      cases entered
      have isName := isName_of_noEntry wf inside isStep walked
      have none : tree.entry? (here ++ [name]) = none := by simpa using free
      refine ⟨wf.insert inside isName (fun _ same => by cases same) fun _ => rfl, ?_, ?_⟩
      · rw [entry?_insert wf inside, if_pos rfl]
      · intro place held
        rw [entry?_insert wf inside]
        split
        · rfl
        · exact held
  next => cases entered

end FileTree

namespace Place

variable {p : Place}

/-- The directories on the way to a file are all entered. -/
theorem foldlM_enter_ok {tree tree' : FileTree} {here there : List String} {names : List String}
    (wf : tree.WellFormed) (inside : tree.entry? here = some .directory)
    (proper : ∀ name ∈ names, FileTree.IsStep name)
    (entered : names.foldlM FileTree.enter (tree, here) = .ok (tree', there)) :
    tree'.WellFormed ∧
      ∀ place, tree.entry? place = some .directory → tree'.entry? place = some .directory := by
  induction names generalizing tree here with
  | nil =>
    cases entered
    exact ⟨wf, fun _ held => held⟩
  | cons name rest ih =>
    rw [List.foldlM_cons] at entered
    cases first : FileTree.enter (tree, here) name with
    | error cause =>
      rw [first] at entered
      cases entered
    | ok spot =>
      rw [first] at entered
      obtain ⟨wf', inside', kept⟩ :=
        FileTree.enter_ok wf inside (proper name List.mem_cons_self) first
      obtain ⟨wf'', kept'⟩ :=
        ih wf' inside' (fun name member => proper name (List.mem_cons_of_mem _ member)) entered
      exact ⟨wf'', fun place held => kept' place (kept place held)⟩

/-- Writing changes the files of a place only. -/
@[simp] theorem stack_write (path : String) (bytes : ByteArray) (modified : Int) :
    (p.write path bytes modified).stack = p.stack := by
  rw [Place.write]
  split
  next => rfl
  next =>
    split
    next => rfl
    next => split <;> rfl

@[simp] theorem stack_remove (path : String) : (p.remove path).stack = p.stack := by
  rw [Place.remove]
  split <;> rfl

/-- Writing a file keeps a place well-formed. -/
theorem WellFormed.write (wf : p.WellFormed) (path : String) (bytes : ByteArray) (modified : Int) :
    (p.write path bytes modified).WellFormed := by
  rw [Place.write]
  split
  next => exact wf
  next usable =>
    have proper (name : String) (member : name ∈ Path.namesOf path) : FileTree.IsStep name :=
      FileTree.isStep_of_namesOf (by simpa using (not_or.mp usable).1) member
    have start : p.tree.entry? (if Path.isRooted path then [] else p.directory) =
        some .directory := by
      split
      · rfl
      · exact wf.inside
    split
    next => exact wf
    next tree above entered =>
      obtain ⟨wfTree, kept⟩ := foldlM_enter_ok wf.tree start
        (fun name member => proper name (List.dropLast_subset _ member)) entered
      have inside := kept _ wf.inside
      split
      next => exact ⟨wfTree, inside⟩
      next place landed =>
        obtain ⟨above', name, rfl, inside', isName, free⟩ := FileTree.landing_ok wfTree
          (fun step member => proper step (List.mem_of_mem_drop member)) landed
        have other : p.directory ≠ above' ++ [name] := fun same => free (same ▸ inside)
        refine ⟨wfTree.insert inside' isName (fun _ same => by cases same)
          fun held => absurd held free, ?_⟩
        rw [FileTree.entry?_insert wfTree inside', if_neg other]
        exact inside

/-- Removing a file keeps a place well-formed. -/
theorem WellFormed.remove (wf : p.WellFormed) (path : String) : (p.remove path).WellFormed := by
  rw [Place.remove]
  split
  next => exact wf
  next => exact wf
  next place entry noDirectory looked =>
    have held := FileTree.entry?_of_walk (lookUp_ok looked).2.2
    have barred (other : List String) (inside : p.tree.entry? other = some .directory) :
        ¬place <+: other := fun higher => by
      cases held.symm.trans (wf.tree.of_prefix inside higher)
      exact noDirectory rfl
    have given : place ≠ [] := fun root => barred [] rfl (root ▸ List.prefix_rfl)
    refine ⟨wf.tree.erase given, ?_⟩
    rw [FileTree.entry?_erase given, if_neg (barred _ wf.inside)]
    exact wf.inside

end Place

end CssHighlight
