import Mathlib.Data.Finset.Card
import Mathlib.Data.Finset.Dedup
import CssHighlight.Keyword.Cache

/-!
# Runs of the keyword cache

A run writes files, removes files and loads keyword lists, in any order. The versions that were used
since a load are those ahead of it in the cache, so its lists are still there as long as these are
fewer than the cache holds.
-/
namespace CssHighlight

/-- A step of a run. -/
inductive CacheStep where
  | write (path : String) (bytes : ByteArray) (modified : Int)
  | remove (path : String)
  | load (path : String)

/-- What a run loads, from which file, and how the files are at that time. -/
structure Loading where
  place : Place
  path : Path
  result : Except KeywordError LoadedKeywords

namespace Loading

def version? (l : Loading) : Option FileVersion :=
  (KeywordCache.versionOf l.place l.path).toOption

/-- The version whose lists a load returns. -/
def loaded? (l : Loading) : Option FileVersion :=
  match l.result with
  | .ok _ => l.version?
  | .error _ => none

end Loading

/-- The versions that are loaded with success. -/
def loadedVersions (loadings : List Loading) : Finset FileVersion :=
  (loadings.filterMap Loading.loaded?).toFinset

namespace KeywordCache

/-- The loads of a run that starts with the files of a place and with a cache. -/
def loadings (p : Place) (cache : KeywordCache) : List CacheStep → List Loading
  | [] => []
  | .write path bytes modified :: rest => loadings (p.write path bytes modified) cache rest
  | .remove path :: rest => loadings (p.remove path) cache rest
  | .load path :: rest =>
    ⟨p, .ofText path, (cache.load p (.ofText path)).2⟩ ::
      loadings p (cache.load p (.ofText path)).1 rest

/-- What a load can do: with a version that is kept, with one that is read, or with neither. -/
inductive Loads (p : Place) (path : Path) (cache : KeywordCache) :
    KeywordCache → Except KeywordError LoadedKeywords → Prop
  | noVersion {cause} (unknown : versionOf p path = .error cause) :
      Loads p path cache cache (.error cause)
  | hit {version kept} (known : versionOf p path = .ok version)
      (held : cache.entries.lookup version = some kept) :
      Loads p path cache
        { cache with entries := (version, kept) :: cache.entries.filter (·.1 ≠ version) } (.ok kept)
  | failed {version cause} (known : versionOf p path = .ok version)
      (absent : cache.entries.lookup version = none)
      (failed : KeywordSet.load p (.ofText version.path) = .error cause) :
      Loads p path cache cache (.error cause)
  | read {version keywords} (known : versionOf p path = .ok version)
      (absent : cache.entries.lookup version = none)
      (read : KeywordSet.load p (.ofText version.path) = .ok keywords) :
      Loads p path cache
        ⟨((version, ⟨cache.next, keywords⟩) :: cache.entries).take capacity, cache.next + 1⟩
        (.ok ⟨cache.next, keywords⟩)

theorem load_loads (p : Place) (path : Path) (cache : KeywordCache) :
    Loads p path cache (cache.load p path).1 (cache.load p path).2 := by
  rw [load]
  split
  next cause unknown => exact .noVersion unknown
  next version known =>
    rw [fetch]
    split
    next kept held => exact .hit known held
    next absent =>
      split
      next cause failed => exact .failed known absent failed
      next keywords read => exact .read known absent read

/-! ### The order of use -/

/-- No version is kept twice. -/
def Distinct (cache : KeywordCache) : Prop :=
  (cache.entries.map Prod.fst).Nodup

/-- The lists of a version are kept, and every version that was used later is one of `others`. -/
structure Keeps (cache : KeywordCache) (version : FileVersion) (kept : LoadedKeywords)
    (others : Finset FileVersion) : Prop where
  distinct : cache.Distinct
  place : ∃ ahead behind, cache.entries = ahead ++ (version, kept) :: behind ∧
    ∀ entry ∈ ahead, entry.1 ∈ others

section Order

variable {p : Place} {path : Path} {cache cache' : KeywordCache} {version other : FileVersion}
  {kept : LoadedKeywords} {result : Except KeywordError LoadedKeywords}
  {others others' : Finset FileVersion}

theorem distinct_cons (distinct : cache.Distinct) (loaded : LoadedKeywords) (next : Nat) :
    Distinct ⟨(version, loaded) :: cache.entries.filter (·.1 ≠ version), next⟩ := by
  rw [Distinct, List.map_cons, List.nodup_cons]
  refine ⟨fun member => ?_, distinct.sublist (List.filter_sublist.map _)⟩
  obtain ⟨entry, found, same⟩ := List.mem_map.mp member
  simpa [same] using (List.mem_filter.mp found).2

theorem distinct_absent (distinct : cache.Distinct)
    (absent : cache.entries.lookup version = none) (loaded : LoadedKeywords) (next : Nat) :
    Distinct ⟨(version, loaded) :: cache.entries, next⟩ := by
  refine List.nodup_cons.mpr ⟨fun member => ?_, distinct⟩
  obtain ⟨entry, found, rfl⟩ := List.mem_map.mp member
  simpa using List.lookup_eq_none_iff.mp absent entry found

theorem Loads.distinct (loads : Loads p path cache cache' result) (distinct : cache.Distinct) :
    cache'.Distinct := by
  cases loads with
  | noVersion => exact distinct
  | hit => exact distinct_cons distinct _ _
  | failed => exact distinct
  | read _ absent =>
    exact (distinct_absent distinct absent _ 0).sublist ((List.take_sublist _ _).map Prod.fst)

theorem Keeps.lookup (keeps : cache.Keeps version kept others) :
    cache.entries.lookup version = some kept := by
  obtain ⟨distinct, ahead, behind, entries, -⟩ := keeps
  rw [Distinct, entries, List.map_append, List.nodup_append] at distinct
  have absent : ahead.lookup version = none := by
    rw [List.lookup_eq_none_iff]
    intro entry member
    have apart := distinct.2.2 entry.1 (List.mem_map_of_mem member) version (by simp)
    simpa using Ne.symm apart
  rw [entries, List.lookup_append, List.lookup_cons_self, absent]
  rfl

/-- The versions ahead of one that is kept are different, so there are not more than `others`. -/
theorem ahead_le {ahead behind : List (FileVersion × LoadedKeywords)}
    (distinct : cache.Distinct) (entries : cache.entries = ahead ++ (version, kept) :: behind)
    (later : ∀ entry ∈ ahead, entry.1 ∈ others) : ahead.length ≤ others.card := by
  rw [Distinct, entries, List.map_append, List.nodup_append] at distinct
  rw [← List.length_map (f := Prod.fst), ← List.toFinset_card_of_nodup distinct.1]
  refine Finset.card_le_card fun other member => ?_
  obtain ⟨entry, found, rfl⟩ := List.mem_map.mp (List.mem_toFinset.mp member)
  exact later entry found

/-- A load that succeeds puts its version first. -/
theorem Loads.keeps (loads : Loads p path cache cache' (.ok kept)) (distinct : cache.Distinct)
    (known : versionOf p path = .ok version) : cache'.Keeps version kept ∅ := by
  refine ⟨loads.distinct distinct, ?_⟩
  cases loads with
  | hit known' =>
    cases known.symm.trans known'
    exact ⟨[], _, rfl, by simp⟩
  | read known' =>
    cases known.symm.trans known'
    exact ⟨[], cache.entries.take 15, rfl, by simp⟩

/-- A load keeps what is not too far behind, and puts at most its own version ahead of it. -/
theorem Keeps.after (keeps : cache.Keeps version kept others)
    (loads : Loads p path cache cache' result) (sub : others ⊆ others')
    (new : ∀ loaded, result = .ok loaded → ∀ other, versionOf p path = .ok other →
      other ≠ version → other ∈ others')
    (few : others'.card < capacity) : cache'.Keeps version kept others' := by
  refine ⟨loads.distinct keeps.distinct, ?_⟩
  obtain ⟨distinct, ahead, behind, entries, later⟩ := id keeps
  cases loads with
  | noVersion => exact ⟨ahead, behind, entries, fun entry member => sub (later entry member)⟩
  | failed => exact ⟨ahead, behind, entries, fun entry member => sub (later entry member)⟩
  | @hit other found known held =>
    by_cases same : other = version
    · subst same
      obtain rfl : found = kept := Option.some.inj (held.symm.trans keeps.lookup)
      exact ⟨[], _, rfl, by simp⟩
    · refine ⟨(other, found) :: ahead.filter (·.1 ≠ other), behind.filter (·.1 ≠ other), ?_, ?_⟩
      · simp [entries, Ne.symm same]
      · intro entry member
        rcases List.mem_cons.mp member with rfl | member
        · exact new found rfl other known same
        · exact sub (later entry (List.mem_filter.mp member).1)
  | @read other keywords known absent read =>
    have apart : other ≠ version := fun same => by
      rw [same, keeps.lookup] at absent
      cases absent
    have later' : ∀ entry ∈ (other, (⟨cache.next, keywords⟩ : LoadedKeywords)) :: ahead,
        entry.1 ∈ others' := by
      intro entry member
      rcases List.mem_cons.mp member with rfl | member
      · exact new _ rfl other known apart
      · exact sub (later entry member)
    -- The versions ahead are fewer than the cache holds, so the cut is behind the one that is kept.
    have short := ahead_le (distinct_absent distinct absent ⟨cache.next, keywords⟩ cache.next)
      (by rw [entries]; rfl) later'
    obtain ⟨room, enough⟩ := Nat.exists_eq_add_of_lt (Nat.lt_of_le_of_lt short few)
    refine ⟨(other, ⟨cache.next, keywords⟩) :: ahead, behind.take room, ?_, later'⟩
    rw [entries, ← List.cons_append, List.take_append, List.take_of_length_le (by omega), enough,
      Nat.add_assoc, Nat.add_sub_cancel_left, List.take_succ_cons]

/-- Lists that are kept are returned. -/
theorem Keeps.returned (keeps : cache.Keeps version kept others)
    (loads : Loads p path cache cache' result) (known : versionOf p path = .ok version) :
    result = .ok kept := by
  have held := keeps.lookup
  cases loads with
  | noVersion unknown => cases known.symm.trans unknown
  | hit known' held' =>
    cases known.symm.trans known'
    cases held.symm.trans held'
    rfl
  | failed known' absent =>
    cases known.symm.trans known'
    cases held.symm.trans absent
  | read known' absent =>
    cases known.symm.trans known'
    cases held.symm.trans absent

end Order

/-! ### Whole runs -/

section Runs

variable {p : Place} {cache : KeywordCache} {steps : List CacheStep}
  {before between rest : List Loading} {a b : Loading} {version : FileVersion}
  {kept : LoadedKeywords} {others : Finset FileVersion}

/-- Every load of a run starts from a cache that keeps no version twice, and the run goes on from
the cache that it leaves. -/
theorem loadings_split (run : loadings p cache steps = before ++ a :: rest)
    (distinct : cache.Distinct) :
    ∃ cache₀ cache₁ p' steps', cache₀.Distinct ∧ Loads a.place a.path cache₀ cache₁ a.result ∧
      loadings p' cache₁ steps' = rest := by
  induction steps generalizing p cache before with
  | nil => simp [loadings] at run
  | cons step steps ih =>
    cases step <;> rw [loadings] at run
    case write => exact ih run distinct
    case remove => exact ih run distinct
    case load path =>
      have loads := load_loads p (.ofText path) cache
      generalize cache.load p (.ofText path) = found at loads run
      cases before with
      | nil =>
        cases run
        exact ⟨cache, _, p, steps, distinct, loads, rfl⟩
      | cons first before =>
        exact ih (List.cons.inj run).2 (loads.distinct distinct)

theorem loadedVersions_cons (l : Loading) (rest : List Loading) :
    loadedVersions (l :: rest) = loadedVersions [l] ∪ loadedVersions rest := by
  rw [loadedVersions, loadedVersions, loadedVersions, ← List.toFinset_append,
    ← List.filterMap_append]
  rfl

theorem mem_loadedVersions {l : Loading} (success : l.result = .ok kept)
    (known : versionOf l.place l.path = .ok version) : version ∈ loadedVersions [l] := by
  simp [loadedVersions, Loading.loaded?, success, Loading.version?, known, Except.toOption]

theorem card_union_left {others' : Finset FileVersion} {n : Nat}
    (few : (others ∪ others').card < n) : others.card < n :=
  Nat.lt_of_le_of_lt (Finset.card_le_card Finset.subset_union_left) few

/-- Lists that are kept are returned as long as not too many versions are used in between. -/
theorem result_of_keeps (run : loadings p cache steps = between ++ b :: rest)
    (keeps : cache.Keeps version kept others) (known : versionOf b.place b.path = .ok version)
    (few : (others ∪ (loadedVersions between).erase version).card < capacity) :
    b.result = .ok kept := by
  induction steps generalizing p cache between others with
  | nil => simp [loadings] at run
  | cons step steps ih =>
    cases step <;> rw [loadings] at run
    case write => exact ih run keeps few
    case remove => exact ih run keeps few
    case load path =>
      have loads := load_loads p (.ofText path) cache
      generalize cache.load p (.ofText path) = found at loads run
      cases between with
      | nil =>
        cases run
        exact keeps.returned loads known
      | cons first between =>
        obtain ⟨same, run⟩ := List.cons.inj run
        rw [loadedVersions_cons, Finset.erase_union_distrib, ← Finset.union_assoc] at few
        refine ih run (keeps.after loads Finset.subset_union_left ?_ (card_union_left few)) few
        intro loaded success other known' apart
        subst same
        exact Finset.mem_union_right _
          (Finset.mem_erase.mpr ⟨apart, mem_loadedVersions success known'⟩)

/-- Two loads of one version return the same lists, read once, if fewer other versions are loaded
between them than the cache holds. -/
theorem loadings_share (run : loadings p empty steps = before ++ a :: between ++ b :: rest)
    (known : versionOf a.place a.path = .ok version)
    (known' : versionOf b.place b.path = .ok version) (loaded : a.result = .ok kept)
    (few : ((loadedVersions between).erase version).card < capacity) : b.result = .ok kept := by
  rw [List.append_assoc] at run
  obtain ⟨cache₀, cache₁, p', steps', distinct, loads, rest⟩ :=
    loadings_split run List.nodup_nil
  rw [loaded] at loads
  exact result_of_keeps rest (loads.keeps distinct known) known'
    (by rwa [Finset.empty_union])

end Runs

end KeywordCache

end CssHighlight
