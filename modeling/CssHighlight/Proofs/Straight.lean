import CssHighlight.Proofs.Following

/-!
# Paths without links

A straight path meets no link on its way. What it leads to can be read off the path itself: a walk
along it and further steps goes on from its place as if it had started there, and looking up a name
behind it finds the entry of that name, unless the path is too long to be looked up at all.
-/
namespace CssHighlight

theorem Path.up_child {path : Path} {name : String} (noDots : name ≠ "..") :
    (path.child name).up = path := by
  have parent : (path.child name).parent = path := by simp [child, Path.parent]
  have last : ¬((path.child name).names.isEmpty ∨
      (path.child name).names.getLast? = some "..") := by
    simp [child, noDots]
  rw [up, if_neg last, parent, ite_self]

namespace Place

/-- A place with a proper tree and an existing working directory. -/
structure WellFormed (p : Place) : Prop where
  tree : p.tree.WellFormed
  inside : p.tree.entry? p.directory = some .directory

/-- The place that a path starts from. -/
def origin (p : Place) (path : Path) : List String :=
  if path.isAbsolute then [] else p.directory

/-- A path leads to a place and meets no link on its way. Its double dots stand at its start. -/
inductive Straight (p : Place) : Path → List String → Prop
  | root : Straight p ⟨"/", []⟩ []
  | start : Straight p ⟨"", []⟩ p.directory
  | above {names place} (dots : ∀ name ∈ names, name = "..")
      (inside : p.tree.entry? place = some .directory) (straight : Straight p ⟨"", names⟩ place) :
      Straight p ⟨"", names ++ [".."]⟩ place.dropLast
  | child {path place name entry} (inside : p.tree.entry? place = some .directory)
      (stands : p.tree.Stands (place ++ [name]) entry) (straight : Straight p path place) :
      Straight p (path.child name) (place ++ [name])

variable {p : Place} {path : Path} {place there : List String} {name : String} {entry : Entry}

namespace Straight

theorem stands (straight : Straight p path place) (wf : p.WellFormed) :
    ∃ entry, p.tree.Stands place entry := by
  cases straight with
  | root => exact ⟨_, FileTree.stands_directory rfl⟩
  | start => exact ⟨_, FileTree.stands_directory wf.inside⟩
  | above _ inside _ => exact ⟨_, FileTree.stands_directory (wf.tree.dropLast inside)⟩
  | child _ stands _ => exact ⟨_, stands⟩

/-- The names of a straight path are double dots and names of entries. -/
theorem names (straight : Straight p path place) (wf : p.WellFormed) :
    ∀ name ∈ path.names, name = ".." ∨ IsName name := by
  induction straight with
  | root => exact fun _ none => absurd none List.not_mem_nil
  | start => exact fun _ none => absurd none List.not_mem_nil
  | above dots _ _ _ =>
    intro name member
    rcases List.mem_append.mp member with member | last
    · exact .inl (dots name member)
    · exact .inl (List.mem_singleton.mp last)
  | child _ stands _ ih =>
    intro other member
    rcases List.mem_append.mp member with member | last
    · exact ih other member
    · exact .inr (List.mem_singleton.mp last ▸ wf.tree.isName stands.1)

theorem root_mem (straight : Straight p path place) : path.root ∈ ["", "/", "//"] := by
  induction straight with
  | root => simp
  | start => simp
  | above => simp
  | child _ _ _ ih => exact ih

theorem isPlain (straight : Straight p path place) (wf : p.WellFormed) : path.IsPlain where
  root := straight.root_mem
  given name member := by
    rcases straight.names wf name member with rfl | isName
    · decide
    · exact isName.given
  noSlash name member := by
    rcases straight.names wf name member with rfl | isName
    · decide
    · exact isName.noSlash
  noDot name member := by
    rcases straight.names wf name member with rfl | isName
    · decide
    · exact isName.noDot

theorem noNull (straight : Straight p path place) (wf : p.WellFormed) :
    ∀ name ∈ path.names, '\x00' ∉ name.toList := by
  intro name member
  rcases straight.names wf name member with rfl | isName
  · decide
  · exact isName.noNull

/-- A walk along a straight path goes on from the place that it leads to. -/
theorem walkWith (straight : Straight p path place) (wf : p.WellFormed) (follow : Bool)
    (jump : List String → List String → Except SystemError (List String × Entry))
    (rest : List String) :
    p.tree.walkWith follow jump (p.origin path) (path.names ++ rest) =
      p.tree.walkWith follow jump place rest := by
  induction straight generalizing rest with
  | root => rfl
  | start => rfl
  | above dots inside straight ih =>
    have here := ih (".." :: rest)
    rw [FileTree.walkWith, inside] at here
    rw [List.append_assoc]
    exact here
  | @child path place name entry inside stands straight ih =>
    have here := ih (name :: rest)
    have isName := wf.tree.isName stands.1
    rw [FileTree.walkWith, inside, stands.1] at here
    simp only [if_neg isName.noDot, if_neg isName.noDots, Nat.not_lt.mpr isName.fits,
      if_false] at here
    rw [Path.child, List.append_assoc]
    refine here.trans ?_
    cases entry with
    | link target => exact absurd rfl (stands.2 target)
    | file => rfl
    | directory => rfl

/-- The names of a straight path, less the double dots and what they take back, are its place. -/
theorem foldl_names (straight : Straight p path place) (wf : p.WellFormed) :
    path.names.foldl (fun done name => if name = ".." then done.tail else name :: done)
      (p.origin path).reverse = place.reverse := by
  induction straight with
  | root => rfl
  | start => rfl
  | above _ _ _ ih =>
    rw [List.foldl_append]
    refine (congrArg List.tail ih).trans ?_
    rw [List.tail_reverse]
  | child _ stands _ ih =>
    rw [Path.child, List.foldl_append, List.foldl_cons,
      if_neg (wf.tree.isName stands.1).noDots, List.foldl_nil, List.reverse_append]
    exact congrArg (_ :: ·) ih

theorem root_eq (straight : Straight p path place) :
    path.root = if path.isAbsolute then "/" else "" := by
  induction straight with
  | root => rfl
  | start => rfl
  | above => rfl
  | child _ _ _ ih => exact ih

/-- Going up from a straight path leads to the directory above its place. -/
theorem up (straight : Straight p path place) (wf : p.WellFormed) :
    Straight p path.up place.dropLast := by
  cases straight with
  | root => exact .root
  | start => exact .above (fun _ none => absurd none List.not_mem_nil) wf.inside .start
  | @above names _ dots inside straight =>
    have last : (names ++ [".."]).getLast? = some ".." := by simp
    rw [Path.up, if_neg (by simp [Path.isAbsolute]), if_pos (.inr last)]
    refine .above (fun name member => ?_) (wf.tree.dropLast inside) (.above dots inside straight)
    rcases List.mem_append.mp member with member | last
    · exact dots name member
    · exact List.mem_singleton.mp last
  | child _ stands straight =>
    rw [Path.up_child (wf.tree.isName stands.1).noDots, List.dropLast_concat]
    exact straight

end Straight

/-- The names of a place are a straight path to it from the root. -/
theorem straight_of_stands (wf : p.WellFormed) (stands : p.tree.Stands place entry) :
    Straight p ⟨"/", place⟩ place := by
  induction place using List.reverseRecOn generalizing entry with
  | nil => exact .root
  | append_singleton above name ih =>
    have inside := wf.tree.above stands.1
    exact .child inside stands (ih (FileTree.stands_directory inside))

/-- A straight path that is made absolute consists of the names of its place. -/
theorem Straight.collapse (straight : Straight p path place) (wf : p.WellFormed) :
    (Path.joinPath ⟨"/", p.directory⟩ path).collapse = ⟨"/", place⟩ := by
  have names := straight.foldl_names wf
  have root := straight.root_eq
  rw [Path.joinPath, Path.collapse]
  cases absolute : path.isAbsolute with
  | true =>
    rw [origin, absolute, if_pos rfl, List.reverse_nil] at names
    rw [absolute, if_pos rfl] at root
    rw [if_pos rfl, names, List.reverse_reverse, root]
  | false =>
    have start := (straight_of_stands wf (FileTree.stands_directory wf.inside)).foldl_names wf
    rw [origin, absolute, if_neg Bool.false_ne_true] at names
    have start : p.directory.foldl (fun done name =>
        if name = ".." then done.tail else name :: done) [] = p.directory.reverse := start
    simp only [if_neg Bool.false_ne_true, List.foldl_append, start, names, List.reverse_reverse]

/-! ### Looking straight paths up -/

section LookUp

theorem lookUp_ok {follow : Bool} {text : String} {found : List String × Entry}
    (looked : p.lookUp follow text = .ok found) :
    '\x00' ∉ text.toList ∧ text.utf8ByteSize ≤ maxPathBytes ∧
      p.tree.walk follow maxLinks (if Path.isRooted text then [] else p.directory)
        (FileTree.stepsOf text) = .ok found := by
  rw [lookUp] at looked
  split at looked
  next => cases looked
  next noNull =>
    split at looked
    next => cases looked
    next =>
      split at looked
      next => cases looked
      next fits =>
        cases walked : p.tree.walk follow maxLinks
            (if Path.isRooted text then [] else p.directory) (FileTree.stepsOf text) with
        | error cause => simp [walked] at looked
        | ok found' =>
          simp only [walked] at looked
          cases looked
          exact ⟨by simpa using noNull, Nat.not_lt.mp fits, rfl⟩

/-- What is found behind all links is no link. -/
theorem lookUp_stands (wf : p.WellFormed) {text : String}
    (looked : p.lookUp true text = .ok (there, entry)) : p.tree.Stands there entry := by
  have walked := (lookUp_ok looked).2.2
  have start : p.tree.entry? (if Path.isRooted text then [] else p.directory) =
      some .directory := by
    split
    · rfl
    · exact wf.inside
  obtain ⟨n, -, leads⟩ := FileTree.leads_of_walk walked
  obtain ⟨found, stands⟩ := leads.stands wf.tree ⟨_, FileTree.stands_directory start⟩
  cases stands.1.symm.trans (FileTree.entry?_of_walk walked)
  exact stands

theorem lookUp_toText (plain : path.IsPlain) (noNull : '\x00' ∉ path.toText.toList)
    (follow : Bool) :
    p.lookUp follow path.toText =
      if maxPathBytes < path.toText.utf8ByteSize then
        .error (.system .nameTooLong path.toText)
      else
        match p.tree.walk follow maxLinks (p.origin path) (FileTree.stepsOf path.toText) with
        | .ok found => .ok found
        | .error cause => .error (.system cause path.toText) := by
  rw [lookUp, if_neg (by simpa using noNull), if_neg plain.toText_ne, plain.isRooted_toText]
  rfl

theorem Straight.walk (straight : Straight p path place) (wf : p.WellFormed) (follow : Bool)
    (links : Nat) (rest : List String) :
    p.tree.walk follow links (p.origin path) (path.names ++ rest) =
      p.tree.walk follow links place rest := by
  cases links with
  | zero => exact straight.walkWith wf follow _ rest
  | succ links => exact straight.walkWith wf follow _ rest

theorem Straight.isPlain_child (straight : Straight p path place) (wf : p.WellFormed)
    (given : name ≠ "") (noSlash : '/' ∉ name.toList) (noDot : name ≠ ".") :
    (path.child name).IsPlain := by
  have plain := straight.isPlain wf
  refine ⟨plain.root, fun other member => ?_, fun other member => ?_, fun other member => ?_⟩
  all_goals rcases List.mem_append.mp member with member | last
  · exact plain.given other member
  · exact List.mem_singleton.mp last ▸ given
  · exact plain.noSlash other member
  · exact List.mem_singleton.mp last ▸ noSlash
  · exact plain.noDot other member
  · exact List.mem_singleton.mp last ▸ noDot

theorem Straight.stepsOf_child (straight : Straight p path place) (wf : p.WellFormed)
    (given : name ≠ "") (noSlash : '/' ∉ name.toList) (noDot : name ≠ ".") :
    FileTree.stepsOf (path.child name).toText = path.names ++ [name] := by
  rw [(straight.isPlain_child wf given noSlash noDot).stepsOf_toText, if_neg (by simp [Path.child])]
  rfl

/-- A name behind a straight path is that of the entry below its place. -/
theorem Straight.linkStat (straight : Straight p path place) (wf : p.WellFormed)
    (inside : p.tree.entry? place = some .directory)
    (held : p.tree.entry? (place ++ [name]) = some entry) :
    p.linkStat (path.child name).toText =
      if maxPathBytes < (path.child name).toText.utf8ByteSize then
        .error (.system .nameTooLong (path.child name).toText)
      else .ok entry := by
  have isName := wf.tree.isName held
  have plain := straight.isPlain_child wf isName.given isName.noSlash isName.noDot
  have noNull : '\x00' ∉ (path.child name).toText.toList := by
    refine plain.noNull_toText fun other member => ?_
    rcases List.mem_append.mp member with member | last
    · exact straight.noNull wf other member
    · exact List.mem_singleton.mp last ▸ isName.noNull
  have walked : p.tree.walk false maxLinks (p.origin path) (path.names ++ [name]) =
      .ok (place ++ [name], entry) := by
    rw [straight.walk wf, show maxLinks = 39 + 1 from rfl, FileTree.walk, FileTree.walkWith, inside]
    simp only [if_neg isName.noDot, if_neg isName.noDots, Nat.not_lt.mpr isName.fits, if_false,
      held]
    cases entry with
    | link target => rfl
    | file => simp only [FileTree.walkWith, held]
    | directory => simp only [FileTree.walkWith, held]
  rw [Place.linkStat, lookUp_toText plain noNull,
    straight.stepsOf_child wf isName.given isName.noSlash isName.noDot,
    show p.origin (path.child name) = p.origin path from rfl, walked]
  split <;> rfl

/-- What is found of a name behind a straight path is the entry below its place. -/
theorem Straight.linkStat_ok (straight : Straight p path place) (wf : p.WellFormed)
    (given : name ≠ "") (noSlash : '/' ∉ name.toList) (noDot : name ≠ ".") (noDots : name ≠ "..")
    (looked : p.linkStat (path.child name).toText = .ok entry) :
    p.tree.entry? place = some .directory ∧ p.tree.entry? (place ++ [name]) = some entry := by
  obtain ⟨spot, found, rfl⟩ : ∃ spot, p.lookUp false (path.child name).toText = .ok spot ∧
      spot.2 = entry := by
    rw [Place.linkStat] at looked
    cases found : p.lookUp false (path.child name).toText with
    | error cause =>
      rw [found] at looked
      cases looked
    | ok spot =>
      rw [found] at looked
      exact ⟨spot, rfl, Except.ok.inj looked⟩
  have walked := (lookUp_ok found).2.2
  rw [(straight.isPlain_child wf given noSlash noDot).isRooted_toText,
    straight.stepsOf_child wf given noSlash noDot] at walked
  have here : p.tree.walk false maxLinks place [name] = .ok spot :=
    (straight.walk wf false maxLinks [name]).symm.trans walked
  rw [show maxLinks = 39 + 1 from rfl, FileTree.walk, FileTree.walkWith] at here
  split at here
  next inside =>
    refine ⟨inside, ?_⟩
    rw [if_neg noDot, if_neg noDots] at here
    split at here
    next => cases here
    next =>
      split at here
      next => cases here
      next target link =>
        cases here
        exact link
      next other _ held =>
        rw [FileTree.walkWith, held] at here
        cases here
        exact held
  next => cases here
  next => cases here

/-- A straight path is that of the entry in its place. -/
theorem Straight.lookUp (straight : Straight p path place) (wf : p.WellFormed)
    (held : p.tree.entry? place = some entry) :
    p.lookUp true path.toText =
      if maxPathBytes < path.toText.utf8ByteSize then
        .error (.system .nameTooLong path.toText)
      else .ok (place, entry) := by
  have plain := straight.isPlain wf
  have walked : p.tree.walk true maxLinks (p.origin path) (FileTree.stepsOf path.toText) =
      .ok (place, entry) := by
    rw [plain.stepsOf_toText]
    split
    next none =>
      -- Without a name the path is where it starts, and that is a directory.
      have inside : place = p.origin path ∧ p.tree.entry? place = some .directory := by
        cases straight with
        | root => exact ⟨rfl, rfl⟩
        | start => exact ⟨rfl, wf.inside⟩
        | above => simp at none
        | child => simp [Path.child] at none
      cases held.symm.trans inside.2
      rw [← inside.1, show maxLinks = 39 + 1 from rfl, FileTree.walk, FileTree.walkWith, held]
      simp only [if_true, FileTree.walkWith, held]
    next =>
      have here := straight.walk wf true maxLinks []
      rw [List.append_nil] at here
      rw [here, show maxLinks = 39 + 1 from rfl, FileTree.walk, FileTree.walkWith, held]
  rw [lookUp_toText plain (plain.noNull_toText (straight.noNull wf)), walked]

theorem Straight.stat (straight : Straight p path place) (wf : p.WellFormed)
    (held : p.tree.entry? place = some entry) :
    p.stat path.toText =
      if maxPathBytes < path.toText.utf8ByteSize then
        .error (.system .nameTooLong path.toText)
      else .ok entry := by
  rw [Place.stat, straight.lookUp wf held]
  split <;> rfl

end LookUp

end Place

end CssHighlight
