import CssHighlight.Proofs.CacheRuns
import CssHighlight.Proofs.Resolving
import CssHighlight.Proofs.Writing

/-!
# What the keyword cache returns

The cache returns what a load of the file would return at the same time, as long as files of one
version have the same bytes. It reads a file by its resolved path. This finds the same file as the
path that is given, unless a path gets too long on the way.
-/
namespace CssHighlight

/-- An error without the path of its file. -/
def KeywordError.unplaced : KeywordError → KeywordError
  | .unreadable _ (.system cause _) => .unreadable "" (.system cause "")
  | .unreadable _ cause => .unreadable "" cause
  | .malformed _ => .malformed ""
  | .unknownLists _ names => .unknownLists "" names
  | .notWords _ name => .notWords "" name
  | .other cause => .other cause

namespace KeywordSet

/-- The same lists, or errors that differ in the path of the file at most. -/
def Agree (first second : Except KeywordError KeywordSet) : Prop :=
  first.mapError KeywordError.unplaced = second.mapError KeywordError.unplaced

/-! ### Lists from the bytes of a file -/

section Load

variable {p p' : Place} {path path' : Path} {bytes : ByteArray} {set : KeywordSet}

theorem Agree.ok {result : Except KeywordError KeywordSet} (agree : Agree (.ok set) result) :
    result = .ok set := by
  cases result with
  | error cause => cases agree
  | ok found =>
    cases agree
    rfl

theorem putEntry_agree (path path' : String) (set : KeywordSet) (entry : String × Value) :
    (putEntry path set entry).mapError KeywordError.unplaced =
      (putEntry path' set entry).mapError KeywordError.unplaced := by
  rw [putEntry, putEntry]
  split <;> rfl

theorem foldlM_putEntry_agree (path path' : String) (entries : Toml.Entries) (set : KeywordSet) :
    Agree (entries.foldlM (putEntry path) set) (entries.foldlM (putEntry path') set) := by
  induction entries generalizing set with
  | nil => rfl
  | cons entry rest ih =>
    have first := putEntry_agree path path' set entry
    rw [List.foldlM_cons, List.foldlM_cons]
    cases here : putEntry path set entry with
    | error cause =>
      cases there : putEntry path' set entry with
      | error cause' =>
        rw [here, there] at first
        exact congrArg Except.error (Except.error.inj first)
      | ok set' =>
        rw [here, there] at first
        cases first
    | ok set' =>
      rw [here] at first
      rw [Agree.ok first]
      exact ih set'

theorem ofEntries_agree (path path' : String) (entries : Toml.Entries) :
    Agree (ofEntries path entries) (ofEntries path' entries) := by
  rw [ofEntries, ofEntries]
  split
  · exact foldlM_putEntry_agree path path' entries builtin
  · rfl

/-- The lists of a file depend on its bytes only, where there is the same stack to read it. -/
theorem load_agree (stack : p.stack = p'.stack) (read : p.read path.toText = .ok bytes)
    (read' : p'.read path'.toText = .ok bytes) : Agree (load p path) (load p' path') := by
  have same : p.readTable path.toText = p'.readTable path'.toText := by
    rw [Place.readTable, Place.readTable, Place.readText, Place.readText, read, read', stack]
  rw [load, load, same]
  split
  next entries _ => exact ofEntries_agree _ _ entries
  next cause _ =>
    cases cause with
    | toml cause => cases cause <;> rfl
    | read cause =>
      cases cause with
      | notUtf8 => rfl
      | file cause => cases cause <;> rfl

theorem load_of_unread {cause : FileError} (unread : p.read path.toText = .error cause) :
    load p path = .error (.ofTableError path.toText (.read (.file cause))) := by
  rw [load, Place.readTable, Place.readText, unread]

theorem read_of_load (loaded : load p path = .ok set) :
    ∃ bytes, p.read path.toText = .ok bytes := by
  cases read : p.read path.toText with
  | ok bytes => exact ⟨bytes, rfl⟩
  | error cause =>
    rw [load_of_unread read] at loaded
    cases loaded

end Load

end KeywordSet

namespace KeywordCache

/-- A file that is found, although its resolved path, or one that comes up while it is resolved, is
too long to be looked up. -/
def OutOfReach (p : Place) (path : Path) : Prop :=
  (∃ entry, p.stat path.toText = .ok entry) ∧
    ((∃ spot, p.resolve true path = .error (.system .nameTooLong spot)) ∨
      ∃ resolved, p.resolve true path = .ok resolved ∧
        maxPathBytes < resolved.toText.utf8ByteSize)

theorem inReach_of_resolve {p : Place} {path resolved : Path}
    (strict : p.resolve true path = .ok resolved)
    (fits : resolved.toText.utf8ByteSize ≤ maxPathBytes) : ¬OutOfReach p path := by
  rintro ⟨-, ⟨spot, long⟩ | ⟨resolved', strict', long⟩⟩
  · cases strict.symm.trans long
  · cases strict.symm.trans strict'
    exact Nat.not_lt.mpr fits long

/-- Files of one version that are loaded have the same bytes. -/
def Determined (loadings : List Loading) : Prop :=
  ∀ a ∈ loadings, ∀ b ∈ loadings, ∀ version bytes bytes',
    versionOf a.place a.path = .ok version → versionOf b.place b.path = .ok version →
      a.place.read a.path.toText = .ok bytes → b.place.read b.path.toText = .ok bytes' →
        bytes = bytes'

/-- Every load returns what its file holds at that time. Two loads of one version return the same
lists, read once, if fewer other versions are loaded between them than the cache holds. -/
structure Transparent (loadings : List Loading) : Prop where
  agree : ∀ l ∈ loadings, KeywordSet.Agree (l.result.map LoadedKeywords.keywords)
    (KeywordSet.load l.place l.path)
  share {before between rest : List Loading} {a b : Loading} {version : FileVersion}
    {kept : LoadedKeywords} (run : loadings = before ++ a :: between ++ b :: rest)
    (known : versionOf a.place a.path = .ok version)
    (known' : versionOf b.place b.path = .ok version) (loaded : a.result = .ok kept)
    (few : ((loadedVersions between).erase version).card < capacity) : b.result = .ok kept

theorem Determined.mono {loadings loadings' : List Loading} (determined : Determined loadings)
    (sub : loadings' ⊆ loadings) : Determined loadings' :=
  fun a found b found' => determined a (sub found) b (sub found')

/-! ### A version leads to the file -/

section Version

variable {p : Place} {path : Path} {version : FileVersion} {there : List String} {entry : Entry}

/-- The resolved path of a file within reach is that of the same file. -/
theorem resolve_of_inReach (wf : p.WellFormed) (plain : path.IsPlain)
    (inReach : ¬OutOfReach p path) (looked : p.lookUp true path.toText = .ok (there, entry)) :
    p.resolve false path = .ok ⟨"/", there⟩ ∧ p.stat (Path.mk "/" there).toText = .ok entry ∧
      (Path.mk "/" there).IsPlain ∧ ∀ target, entry ≠ .link target := by
  have stands := Place.lookUp_stands wf looked
  have straight := Place.straight_of_stands wf stands
  have found : p.stat path.toText = .ok entry := by rw [Place.stat, looked]; rfl
  have resolved := Place.resolve_of_lookUp wf looked
  rw [plain.ofText_toText] at resolved
  rcases resolved with long | strict
  · exact absurd ⟨⟨entry, found⟩, .inl long⟩ inReach
  · have fits : ¬maxPathBytes < (Path.mk "/" there).toText.utf8ByteSize := fun long =>
      inReach ⟨⟨entry, found⟩, .inr ⟨_, strict, long⟩⟩
    have stat := straight.stat wf stands.1
    rw [if_neg fits] at stat
    exact ⟨Place.resolve_lenient wf stands strict, stat, straight.isPlain wf, stands.2⟩

theorem lookUp_of_stat {text : String} (found : p.stat text = .ok entry) :
    ∃ there, p.lookUp true text = .ok (there, entry) := by
  rw [Place.stat] at found
  cases looked : p.lookUp true text with
  | error cause =>
    rw [looked] at found
    cases found
  | ok spot =>
    rw [looked] at found
    cases found
    exact ⟨spot.1, rfl⟩

/-- A file that is within reach has the same bytes under its resolved path. -/
theorem version_agree (wf : p.WellFormed) (plain : path.IsPlain) (inReach : ¬OutOfReach p path)
    (known : versionOf p path = .ok version) :
    KeywordSet.Agree (KeywordSet.load p (.ofText version.path)) (KeywordSet.load p path) := by
  cases found : p.stat path.toText with
  | error cause =>
    rw [versionOf, found] at known
    cases cause <;> cases known
  | ok entry =>
    obtain ⟨there, looked⟩ := lookUp_of_stat found
    obtain ⟨resolved, stat, plain', unlinked⟩ := resolve_of_inReach wf plain inReach looked
    have path' : version.path = (Path.mk "/" there).toText := by
      rw [versionOf, found] at known
      simp only [resolved] at known
      split at known <;> cases known <;> rfl
    rw [path', plain'.ofText_toText]
    cases entry with
    | link target => exact absurd rfl (unlinked target)
    | file bytes modified =>
      exact KeywordSet.load_agree rfl (by rw [Place.read, stat]) (by rw [Place.read, found])
    | directory =>
      rw [KeywordSet.load_of_unread (by rw [Place.read, stat]),
        KeywordSet.load_of_unread (by rw [Place.read, found])]
      rfl

/-- Without a version there are no lists either, for the same reason. -/
theorem noVersion_agree (wf : p.WellFormed) (plain : path.IsPlain) (inReach : ¬OutOfReach p path)
    {cause : KeywordError} (unknown : versionOf p path = .error cause) :
    KeywordSet.Agree (.error cause) (KeywordSet.load p path) := by
  cases found : p.stat path.toText with
  | error reason =>
    rw [KeywordSet.load_of_unread (by rw [Place.read, found])]
    rw [versionOf, found] at unknown
    cases reason <;> cases unknown <;> rfl
  | ok entry =>
    obtain ⟨there, looked⟩ := lookUp_of_stat found
    obtain ⟨resolved, -⟩ := resolve_of_inReach wf plain inReach looked
    rw [versionOf, found] at unknown
    simp only [resolved] at unknown
    split at unknown <;> cases unknown

/-- Files have a stamp, and nothing else has. -/
theorem stamp_iff (known : versionOf p path = .ok version) :
    version.stamp.isSome ↔ ∃ bytes, p.read path.toText = .ok bytes := by
  rw [versionOf] at known
  rw [Place.read]
  split at known
  next => cases known
  next => cases known
  next entry found =>
    rw [found]
    split at known
    next => cases known
    next resolved _ =>
      cases entry with
      | file bytes modified =>
        cases known
        exact ⟨fun _ => ⟨bytes, rfl⟩, fun _ => rfl⟩
      | directory =>
        cases known
        simp
      | link target =>
        cases known
        simp

end Version

/-! ### Whole runs -/

section Runs

variable {p : Place} {path : Path} {cache cache' : KeywordCache} {past : List Loading}
  {result : Except KeywordError LoadedKeywords} {l : Loading} {steps : List CacheStep}

/-- What a cache keeps was found in the file of its version at some time of the past, with the same
stack. -/
def Honest (stack : Nat) (past : List Loading) (cache : KeywordCache) : Prop :=
  ∀ entry ∈ cache.entries, ∃ l ∈ past, l.place.stack = stack ∧
    versionOf l.place l.path = .ok entry.1 ∧
    KeywordSet.load l.place l.path = .ok entry.2.keywords

theorem Honest.mono {stack : Nat} {past' : List Loading} (honest : Honest stack past cache)
    (sub : past ⊆ past') : Honest stack past' cache := by
  intro entry member
  obtain ⟨l, found, facts⟩ := honest entry member
  exact ⟨l, sub found, facts⟩

theorem mem_of_lookup {version : FileVersion} {kept : LoadedKeywords}
    (held : cache.entries.lookup version = some kept) : (version, kept) ∈ cache.entries := by
  obtain ⟨ahead, behind, entries, -⟩ := List.lookup_eq_some_iff.mp held
  rw [entries]
  exact List.mem_append_right _ List.mem_cons_self

/-- A load returns what the file holds. -/
theorem Loads.agree (loads : Loads p path cache cache' result) (wf : p.WellFormed)
    (plain : path.IsPlain) (inReach : ¬OutOfReach p path) (honest : Honest p.stack past cache)
    (determined : Determined (⟨p, path, result⟩ :: past)) :
    KeywordSet.Agree (result.map LoadedKeywords.keywords) (KeywordSet.load p path) := by
  cases loads with
  | noVersion unknown => exact noVersion_agree wf plain inReach unknown
  | @hit version kept known held =>
    obtain ⟨l, found, stack, known', loaded⟩ := honest _ (mem_of_lookup held)
    obtain ⟨bytes, read⟩ := KeywordSet.read_of_load loaded
    -- The file of this version had the same bytes when the lists were read.
    obtain ⟨bytes', read'⟩ := (stamp_iff known).mp ((stamp_iff known').mpr ⟨bytes, read⟩)
    obtain rfl := determined l (List.mem_cons_of_mem _ found) ⟨p, path, .ok kept⟩
      List.mem_cons_self version bytes bytes' known' known read read'
    have agree := KeywordSet.load_agree stack read read'
    rwa [loaded] at agree
  | failed known _ failed =>
    have agree := version_agree wf plain inReach known
    rwa [failed] at agree
  | read known _ read =>
    have agree := version_agree wf plain inReach known
    rwa [read] at agree

/-- A load leaves a cache that keeps what was found. -/
theorem Loads.honest (loads : Loads p path cache cache' result) (wf : p.WellFormed)
    (plain : path.IsPlain) (inReach : ¬OutOfReach p path) (honest : Honest p.stack past cache) :
    Honest p.stack (⟨p, path, result⟩ :: past) cache' := by
  have honest' := honest.mono (List.subset_cons_self ⟨p, path, result⟩ past)
  cases loads with
  | noVersion => exact honest'
  | failed => exact honest'
  | hit _ held =>
    intro entry member
    rcases List.mem_cons.mp member with rfl | member
    · exact honest' _ (mem_of_lookup held)
    · exact honest' entry (List.mem_filter.mp member).1
  | @read version keywords known _ read =>
    intro entry member
    rcases List.mem_cons.mp (List.mem_of_mem_take member) with rfl | member
    · have agree := version_agree wf plain inReach known
      rw [read] at agree
      exact ⟨_, List.mem_cons_self, rfl, known, agree.ok⟩
    · exact honest' entry member

/-- Every load of a run returns what the file holds at that time. -/
theorem loadings_agree (wf : p.WellFormed) (honest : Honest p.stack past cache)
    (determined : Determined (past ++ loadings p cache steps))
    (inReach : ∀ l ∈ loadings p cache steps, ¬OutOfReach l.place l.path) :
    ∀ l ∈ loadings p cache steps,
      KeywordSet.Agree (l.result.map LoadedKeywords.keywords) (KeywordSet.load l.place l.path) := by
  induction steps generalizing p cache past with
  | nil =>
    intro l member
    cases member
  | cons step steps ih =>
    cases step with
    | write path bytes modified =>
      rw [loadings] at *
      exact ih (wf.write path bytes modified) (by rwa [Place.stack_write]) determined inReach
    | remove path =>
      rw [loadings] at *
      exact ih (wf.remove path) (by rwa [Place.stack_remove]) determined inReach
    | load path =>
      have loads := load_loads p (.ofText path) cache
      rw [loadings] at *
      generalize cache.load p (.ofText path) = found at *
      have plain := ofText_isPlain path
      have here := inReach _ List.mem_cons_self
      intro l member
      rcases List.mem_cons.mp member with rfl | member
      · refine loads.agree wf plain here honest (determined.mono fun l found => ?_)
        rcases List.mem_cons.mp found with rfl | found
        · exact List.mem_append_right _ List.mem_cons_self
        · exact List.mem_append_left _ found
      · refine ih wf (loads.honest wf plain here honest) (determined.mono fun l found => ?_)
          (fun l found => inReach l (List.mem_cons_of_mem _ found)) l member
        simpa [or_left_comm] using found

/-- The keyword cache can not be told from reading the files anew, but for the identity of the
lists: these are shared as long as the cache holds them. -/
theorem loadings_transparent (wf : p.WellFormed) (steps : List CacheStep)
    (determined : Determined (loadings p empty steps))
    (inReach : ∀ l ∈ loadings p empty steps, ¬OutOfReach l.place l.path) :
    Transparent (loadings p empty steps) where
  agree :=
    have honest : Honest p.stack [] empty := fun _ none => by cases none
    loadings_agree wf honest determined inReach
  share run known known' loaded few := loadings_share run known known' loaded few

end Runs

/-- A place without files. -/
def bare : Place := { tree := ⟨[]⟩, directory := [], home := "/", homes := [] }

/-- One file is read by two paths and is then removed. -/
theorem loadings_transparent_bare :
    bare.WellFormed ∧ Transparent (loadings bare empty [.write "a/k" "".toUTF8 1, .load "a/k",
      .load "a/../a/k", .remove "a/k", .load "a/k"]) := by
  have wf : bare.WellFormed := ⟨FileTree.wellFormed_nil, rfl⟩
  have reads : ∀ l ∈ loadings bare empty [.write "a/k" "".toUTF8 1, .load "a/k",
      .load "a/../a/k", .remove "a/k", .load "a/k"],
      ∀ bytes, l.place.read l.path.toText = .ok bytes → bytes = "".toUTF8 := by
    intro l member bytes read
    simp only [loadings, List.mem_cons, List.not_mem_nil, or_false] at member
    rcases member with rfl | rfl | rfl
    · have held : ((bare.write "a/k" "".toUTF8 1).read (Path.ofText "a/k").toText) =
          .ok "".toUTF8 := by decide +kernel
      exact Except.ok.inj (read.symm.trans held)
    · have held : ((bare.write "a/k" "".toUTF8 1).read (Path.ofText "a/../a/k").toText) =
          .ok "".toUTF8 := by decide +kernel
      exact Except.ok.inj (read.symm.trans held)
    · have gone : (((bare.write "a/k" "".toUTF8 1).remove "a/k").read
          (Path.ofText "a/k").toText) = .error (.system .noEntry "a/k") := by decide +kernel
      cases read.symm.trans gone
  refine ⟨wf, loadings_transparent wf _ ?_ ?_⟩
  · intro a found b found' _ bytes bytes' _ _ read read'
    rw [reads a found bytes read, reads b found' bytes' read']
  · intro l member
    simp only [loadings, List.mem_cons, List.not_mem_nil, or_false] at member
    rcases member with rfl | rfl | rfl
    · have strict : (bare.write "a/k" "".toUTF8 1).resolve true (.ofText "a/k") =
          .ok ⟨"/", ["a", "k"]⟩ := by decide +kernel
      exact inReach_of_resolve strict (by decide +kernel)
    · have strict : (bare.write "a/k" "".toUTF8 1).resolve true (.ofText "a/../a/k") =
          .ok ⟨"/", ["a", "k"]⟩ := by decide +kernel
      exact inReach_of_resolve strict (by decide +kernel)
    · rintro ⟨⟨entry, found⟩, -⟩
      have gone : (((bare.write "a/k" "".toUTF8 1).remove "a/k").stat
          (Path.ofText "a/k").toText).isOk = false := by decide +kernel
      rw [found] at gone
      cases gone

/-! ### Files that are out of reach -/

section OutOfReach

variable {p : Place} {path : Path} {there : List String} {entry : Entry}

/-- A file whose resolved path cannot be looked up is reported as unreadable. -/
theorem load_unreadable {cause : SystemError} {spot : String}
    (found : p.stat path.toText = .ok entry) (resolved : p.resolve false path = .ok ⟨"/", there⟩)
    (plain : (Path.mk "/" there).IsPlain)
    (lost : p.stat (Path.mk "/" there).toText = .error (.system cause spot)) :
    (empty.load p path).2 =
      .error (.unreadable (Path.mk "/" there).toText (.system cause spot)) := by
  obtain ⟨version, known, same⟩ : ∃ version, versionOf p path = .ok version ∧
      version.path = (Path.mk "/" there).toText := by
    rw [versionOf, found]
    simp only [resolved]
    cases entry <;> exact ⟨_, rfl, rfl⟩
  have unread : p.read (Path.mk "/" there).toText = .error (.system cause spot) := by
    rw [Place.read, lost]
  rw [load, known]
  simp only [fetch, empty, List.lookup_nil, same, plain.ofText_toText,
    KeywordSet.load_of_unread unread]
  rfl

/-- A name in the working directory is resolved to a path from the root. -/
theorem resolve_name {name : String} {entry : Entry} (wf : p.WellFormed)
    (stands : p.tree.Stands (p.directory ++ [name]) entry) :
    p.resolve false ⟨"", [name]⟩ = .ok ⟨"/", p.directory ++ [name]⟩ := by
  have straight : Place.Straight p ⟨"", [name]⟩ (p.directory ++ [name]) :=
    .child wf.inside stands .start
  have isName := wf.tree.isName stands.1
  have looked := Place.Straight.linkStat .start wf wf.inside stands.1
  have fits : ¬maxPathBytes < (Path.child ⟨"", []⟩ name).toText.utf8ByteSize := by
    have text : (Path.child ⟨"", []⟩ name).toText = name := by
      simp [Path.child, Path.toText, isName.given]
    rw [text, Nat.not_lt]
    exact Nat.le_trans isName.fits (by decide)
  rw [if_neg fits] at looked
  have run : p.resolveSteps true (p.resolveFuel [.enter name]) ⟨"", []⟩ [] [.enter name] =
      .ok ⟨"", [name]⟩ := by
    rw [Place.resolveFuel, List.length_singleton, Nat.add_comm 1,
      Place.resolveSteps_pass (by simp [isName.given, isName.noDot]) isName.noDots looked stands.2]
    rfl
  refine Place.resolve_lenient wf stands ?_
  rw [Place.resolve]
  simp only [List.map_cons, List.map_nil, show (Path.mk "" [name]).isAbsolute = false from rfl,
    if_neg Bool.false_ne_true, run, straight.collapse wf, if_true]

theorem utf8ByteSize_intercalate (names : List String) :
    (names.map String.utf8ByteSize).sum ≤ ("/".intercalate names).utf8ByteSize := by
  induction names with
  | nil => simp
  | cons name rest ih =>
    cases rest with
    | nil => simp
    | cons next rest =>
      rw [String.intercalate_cons_cons, String.utf8ByteSize_append, String.utf8ByteSize_append,
        List.map_cons, List.sum_cons]
      omega

end OutOfReach

/-- A name of 250 letters. -/
def longName : String := String.ofList (List.replicate 250 'a')

theorem not_mem_replicate {c : Char} (other : c ≠ 'a') (n : Nat) :
    c ∉ (String.ofList (List.replicate n 'a')).toList := by
  simp [other]

theorem longName_isName : IsName longName where
  given := by decide +kernel
  noSlash := not_mem_replicate (by decide) 250
  noNull := not_mem_replicate (by decide) 250
  noDot := by decide +kernel
  noDots := by decide +kernel
  fits := by decide +kernel

/-- So many directories, each inside the one before. -/
def tower : Nat → FileTree
  | 0 => ⟨[]⟩
  | n + 1 => (tower n).insert (List.replicate n longName ++ [longName]) .directory

theorem tower_wellFormed (n : Nat) :
    (tower n).WellFormed ∧
      FileTree.entry? (tower n) (List.replicate n longName) = some .directory := by
  induction n with
  | zero =>
    exact ⟨FileTree.wellFormed_nil, rfl⟩
  | succ n ih =>
    obtain ⟨wf, inside⟩ := ih
    refine ⟨wf.insert inside longName_isName (fun _ same => by cases same) fun _ => rfl, ?_⟩
    rw [List.replicate_succ', tower, FileTree.entry?_insert wf inside, if_pos rfl]

theorem tower_names {n : Nat} {place : List String} {entry : Entry}
    (held : FileTree.entry? (tower n) place = some entry) : ∀ name ∈ place, name = longName := by
  induction n generalizing entry with
  | zero =>
    rw [FileTree.entry?_eq] at held
    split at held
    next root => simp [root]
    next => cases held
  | succ n ih =>
    obtain ⟨wf, inside⟩ := tower_wellFormed n
    rw [tower, FileTree.entry?_insert wf inside] at held
    split at held
    next same =>
      rw [same]
      intro name member
      rcases List.mem_append.mp member with member | last
      · exact List.eq_of_mem_replicate member
      · exact List.mem_singleton.mp last
    next => exact ih held

/-- An empty keyword file in the innermost of so many directories. -/
def deep (n : Nat) : Place where
  tree := (tower n).insert (List.replicate n longName ++ ["k"]) (.file "".toUTF8 0)
  directory := List.replicate n longName
  home := "/"
  homes := []

theorem deep_wellFormed (n : Nat) : (deep n).WellFormed ∧
    (deep n).tree.entry? (List.replicate n longName ++ ["k"]) = some (.file "".toUTF8 0) := by
  obtain ⟨wf, inside⟩ := tower_wellFormed n
  have isName : IsName "k" :=
    ⟨by decide, by decide, by decide, by decide, by decide, by decide⟩
  refine ⟨⟨wf.insert inside isName (fun _ same => by cases same) fun held => ?_, ?_⟩, ?_⟩
  · exact absurd (tower_names held "k" (by simp)) (by decide +kernel)
  · rw [deep, FileTree.entry?_insert wf inside, if_neg (by simp)]
    exact inside
  · rw [deep, FileTree.entry?_insert wf inside, if_pos rfl]

theorem long_deep (n : Nat) :
    n * 250 ≤ (Path.mk "/" (List.replicate n longName ++ ["k"])).toText.utf8ByteSize := by
  have names := utf8ByteSize_intercalate (List.replicate n longName ++ ["k"])
  have size : longName.utf8ByteSize = 250 := by decide +kernel
  rw [List.map_append, List.map_replicate, List.sum_append, List.sum_replicate_nat,
    size] at names
  have text : (Path.mk "/" (List.replicate n longName ++ ["k"])).toText =
      "/" ++ "/".intercalate (List.replicate n longName ++ ["k"]) := by
    rw [Path.toText, if_neg]
    simp
  rw [text, String.utf8ByteSize_append]
  exact Nat.le_trans (Nat.le_trans (Nat.le_add_right _ _) names) (Nat.le_add_left _ _)

/-- In a directory with a long path, a file can be loaded by its name, but not with the cache. -/
theorem loadings_deep_ne :
    (deep 17).WellFormed ∧ Determined (loadings (deep 17) empty [.load "k"]) ∧
      ¬∀ l ∈ loadings (deep 17) empty [.load "k"],
        KeywordSet.Agree (l.result.map LoadedKeywords.keywords)
          (KeywordSet.load l.place l.path) := by
  obtain ⟨wf, held⟩ := deep_wellFormed 17
  refine ⟨wf, ?_, fun all => ?_⟩
  · intro a found b found' version bytes bytes' _ _ read read'
    rw [loadings, loadings, List.mem_singleton] at found found'
    subst found found'
    exact Except.ok.inj (read.symm.trans read')
  · have agree := all _ (by rw [loadings]; exact List.mem_cons_self)
    have stands : (deep 17).tree.Stands (List.replicate 17 longName ++ ["k"]) (.file "".toUTF8 0) :=
      ⟨held, fun _ same => by cases same⟩
    have straight : Place.Straight (deep 17) (.ofText "k") (List.replicate 17 longName ++ ["k"]) :=
      .child wf.inside stands .start
    have found := straight.stat wf held
    rw [if_neg (by decide)] at found
    have there := Place.straight_of_stands wf stands
    have lost := there.stat wf held
    rw [if_pos (Nat.lt_of_lt_of_le (by decide) (long_deep 17))] at lost
    have failed := load_unreadable found (resolve_name wf stands) (there.isPlain wf) lost
    have loaded : KeywordSet.load (deep 17) (.ofText "k") = .ok KeywordSet.builtin := by
      rw [KeywordSet.load, Place.readTable, Place.readText, Place.read, found]
      rfl
    rw [failed, loaded] at agree
    cases agree

end KeywordCache

end CssHighlight
