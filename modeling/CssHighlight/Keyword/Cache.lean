import CssHighlight.Keyword.File

/-!
# Keyword cache

Loaded keyword lists are kept for the sixteen versions of keyword files that were used last. A
version is a resolved path with the file's time of change and size, so a changed file is read
again. Failures are not kept.
-/
namespace CssHighlight

structure FileVersion where
  path : String
  /-- The time of the last change and the size of a file. A directory has none here. -/
  stamp : Option (Int × Nat)
  deriving DecidableEq, Repr

/-- Keyword lists together with the number of the load that read them. -/
structure LoadedKeywords where
  serial : Nat
  keywords : KeywordSet

structure KeywordCache where
  /-- The versions in use, the latest used first. -/
  entries : List (FileVersion × LoadedKeywords)
  /-- The number of the next load. -/
  next : Nat

namespace KeywordCache

def empty : KeywordCache := ⟨[], 0⟩

/-- How many versions are kept. -/
def capacity : Nat := 16

/-- The version of the file that a path leads to. -/
def versionOf (p : Place) (path : Path) : Except KeywordError FileVersion :=
  match p.stat path.toText with
  | .error (.system cause spot) =>
    .error (.unreadable path.toText (.system cause spot))
  | .error e => .error (.other (.read (.file e)))
  | .ok entry =>
    match p.resolve false path with
    | .error e => .error (.other (.read (.file e)))
    | .ok resolved =>
      match entry with
      | .file bytes modified => .ok ⟨resolved.toText, some (modified, bytes.size)⟩
      | _ => .ok ⟨resolved.toText, none⟩

/-- The lists of a version, read if they are not kept, and the cache afterwards. -/
def fetch (p : Place) (version : FileVersion) (cache : KeywordCache) :
    KeywordCache × Except KeywordError LoadedKeywords :=
  match cache.entries.lookup version with
  | some kept =>
    ({ cache with
        entries := (version, kept) :: cache.entries.filter (·.1 ≠ version) }, .ok kept)
  | none =>
    match KeywordSet.load p (.ofText version.path) with
    | .error e => (cache, .error e)
    | .ok keywords =>
      let loaded : LoadedKeywords := ⟨cache.next, keywords⟩
      (⟨((version, loaded) :: cache.entries).take capacity, cache.next + 1⟩, .ok loaded)

/-- The lists of the file that a path leads to, and the cache afterwards. -/
def load (p : Place) (path : Path) (cache : KeywordCache) :
    KeywordCache × Except KeywordError LoadedKeywords :=
  match versionOf p path with
  | .error e => (cache, .error e)
  | .ok version => cache.fetch p version

end KeywordCache

end CssHighlight
