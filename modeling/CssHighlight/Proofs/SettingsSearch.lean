import Mathlib.Data.List.Infix
import CssHighlight.Config.Search

/-!
# The order of the search for settings

The files that may hold settings stand in a list: those of the directory itself first, then those
of each directory above it, up to the root. A search reads this list from its front to the first
file that holds a table for the settings, and goes no further.
-/
namespace CssHighlight

/-! ### Results in sequence -/

section Results

variable {ε α β : Type} {result : Except ε α} {f : α → Except ε β} {cause : ε} {value : β}

theorem bind_error (failed : (result >>= f) = .error cause) :
    result = .error cause ∨ ∃ first, result = .ok first ∧ f first = .error cause := by
  cases result with
  | error =>
    cases failed
    exact .inl rfl
  | ok first => exact .inr ⟨first, rfl, failed⟩

theorem bind_ok (done : (result >>= f) = .ok value) :
    ∃ first, result = .ok first ∧ f first = .ok value := by
  cases result with
  | error => cases done
  | ok first => exact ⟨first, rfl, done⟩

theorem map_error {f : α → β} (failed : result.map f = .error cause) : result = .error cause := by
  cases result with
  | error =>
    cases failed
    rfl
  | ok => cases failed

theorem map_ok {f : α → β} (done : result.map f = .ok value) :
    ∃ first, result = .ok first ∧ f first = value := by
  cases result with
  | error => cases done
  | ok first => exact ⟨first, rfl, Except.ok.inj done⟩

theorem mapError_error {δ : Type} {f : ε → δ} {cause : δ}
    (failed : result.mapError f = .error cause) :
    ∃ reason, result = .error reason ∧ cause = f reason := by
  cases result with
  | error reason =>
    cases failed
    exact ⟨reason, rfl, rfl⟩
  | ok => cases failed

theorem mapError_ok {δ : Type} {f : ε → δ} {first : α}
    (done : result.mapError f = .ok first) : result = .ok first := by
  cases result with
  | error => cases done
  | ok =>
    cases done
    rfl

end Results

namespace Config

/-- A file that may hold settings: its directory, its name, and the keys of the tables. -/
abbrev SettingsFile := Path × String × List (List String)

/-- A directory and those above it, the nearest first. -/
def upwards (directory : Path) : List Path :=
  directory.names.inits.reverse.map fun names => { directory with names := names }

/-- The files that may hold settings for a directory, in the order of their rank. -/
def settingsFiles (directory : Path) : List SettingsFile :=
  (upwards directory).flatMap fun above => sources.map (above, ·)

def SettingsFile.path (f : SettingsFile) : String :=
  (f.1.join f.2.1).toText

/-- What a file holds under the first of its keys that is there. A file that is missing or is no
TOML holds nothing. -/
def tableIn (p : Place) (f : SettingsFile) : Option Value :=
  match p.readTable f.path with
  | .ok entries => f.2.2.findSome? fun key => valueAt key entries
  | .error _ => none

/-- The first table for settings, with the directory of its file. -/
def firstTable (p : Place) (files : List SettingsFile) : Option (Path × Value) :=
  files.findSome? fun f => (tableIn p f).map (f.1, ·)

/-- The configuration in the first of the files that holds one. -/
def firstIn (p : Place) : List SettingsFile → Except SearchError (Option Config)
  | [] => .ok none
  | f :: rest => do
    match ← inFile p f.1 f.2 with
    | some config => return some config
    | none => firstIn p rest

section Walk

variable {p : Place} {directory : Path} {names : List String} {root name : String}

theorem upwards_root : upwards ⟨root, []⟩ = [⟨root, []⟩] :=
  rfl

theorem upwards_child :
    upwards ⟨root, names ++ [name]⟩ = ⟨root, names ++ [name]⟩ :: upwards ⟨root, names⟩ := by
  simp [upwards, List.inits_append]

theorem firstIn_append (files files' : List SettingsFile) :
    firstIn p (files ++ files') = (do
      match ← firstIn p files with
      | some config => return some config
      | none => firstIn p files') := by
  induction files with
  | nil => rfl
  | cons f rest ih =>
    rw [List.cons_append, firstIn, firstIn]
    cases inFile p f.1 f.2 with
    | error cause => rfl
    | ok found =>
      cases found with
      | none => exact ih
      | some config => rfl

theorem inDirectory_eq (p : Place) (directory : Path) (files : List (String × List (List String))) :
    inDirectory p directory files = firstIn p (files.map (directory, ·)) := by
  induction files with
  | nil => rfl
  | cons source rest ih =>
    rw [inDirectory, List.map_cons, firstIn]
    cases inFile p directory source with
    | error cause => rfl
    | ok found =>
      cases found with
      | none => exact ih
      | some config => rfl

/-- A search that walks up to the root reads the files in the order of their rank. -/
theorem nearest_eq (p : Place) (directory : Path) :
    nearest p directory directory.names.length =
      (firstIn p (settingsFiles directory)).map fun found => found.getD {} := by
  obtain ⟨root, names⟩ := directory
  induction names using List.reverseRecOn with
  | nil =>
    rw [settingsFiles, upwards_root, List.flatMap_singleton, ← inDirectory_eq]
    rfl
  | append_singleton names name ih =>
    rw [settingsFiles, upwards_child, List.flatMap_cons, firstIn_append, ← inDirectory_eq]
    simp only [List.length_append, List.length_singleton, nearest, Path.parent,
      List.dropLast_concat]
    cases inDirectory p ⟨root, names ++ [name]⟩ sources with
    | error cause => rfl
    | ok found =>
      cases found with
      | none => exact ih
      | some config => rfl

end Walk

/-! ### What one file adds -/

section Files

variable {p : Place} {f : SettingsFile} {files : List SettingsFile} {config : Config}

/-- The entries of a table describe a configuration, with the path of its keyword file seen from the
table's directory. -/
def Describes (p : Place) (directory : Path) (entries : List (String × Value)) (config : Config) :
    Prop :=
  ∃ given, ({} : Config).putAll entries = .ok given ∧ given.anchorKeywords p directory = .ok config

theorem putAll_of_ofValue {file : String} {key : List String} {value : Value} {given : Config}
    (built : ofValue file key value = .ok given) :
    ∃ entries, value = .table entries ∧ ({} : Config).putAll entries = .ok given := by
  unfold ofValue at built
  split at built
  next entries =>
    split at built
    next put =>
      cases built
      exact ⟨entries, rfl, put⟩
    next => cases built
  next => cases built

theorem tableIn_of_read {entries : Toml.Entries} (read : p.readTable f.path = .ok entries) :
    tableIn p f = (f.2.2.findSome? fun key => (valueAt key entries).map (key, ·)).map Prod.snd := by
  have value (key : List String) :
      valueAt key entries = ((valueAt key entries).map (key, ·)).map Prod.snd := by
    cases valueAt key entries <;> rfl
  unfold tableIn
  rw [read, List.map_findSome?]
  exact congrArg (f.2.2.findSome? ·) (funext value)

theorem tableIn_of_unread {cause : TableError} (unread : p.readTable f.path = .error cause) :
    tableIn p f = none := by
  unfold tableIn
  rw [unread]

/-- A file that does not exist cannot be read. -/
theorem readTable_of_missing {path : String} (missing : p.doesExist path = .ok false) :
    ∃ cause, p.readTable path = .error cause := by
  unfold Place.doesExist at missing
  split at missing
  · cases missing
  · cases missing
  next cause _ absent =>
    exact ⟨.read (.file cause), by rw [Place.readTable, Place.readText, Place.read, absent]⟩

/-- A file without a configuration holds no table, and one with a configuration holds the table
that describes it. -/
theorem tableIn_of_inFile {found : Option Config} (h : inFile p f.1 f.2 = .ok found) :
    (found = none ∧ tableIn p f = none) ∨
      ∃ entries config, found = some config ∧ tableIn p f = some (.table entries) ∧
        Describes p f.1 entries config := by
  unfold inFile at h
  simp only [show (f.1.join f.2.1).toText = f.path from rfl] at h
  split at h
  next => cases h
  next missing =>
    cases h
    obtain ⟨cause, unread⟩ := readTable_of_missing missing
    exact .inl ⟨rfl, tableIn_of_unread unread⟩
  next =>
    split at h
    next unread =>
      cases h
      exact .inl ⟨rfl, tableIn_of_unread unread⟩
    next unread =>
      cases h
      exact .inl ⟨rfl, tableIn_of_unread unread⟩
    next => cases h
    next entries read =>
      have held := tableIn_of_read read
      split at h
      next absent =>
        cases h
        exact .inl ⟨rfl, by rw [held, absent]; rfl⟩
      next key value first =>
        split at h
        next => cases h
        next given built =>
          split at h
          next => cases h
          next config anchored =>
            cases h
            obtain ⟨table, rfl, put⟩ := putAll_of_ofValue built
            exact .inr ⟨table, config, rfl, by rw [held, first]; rfl, given, put, anchored⟩

/-- The configuration that is found is that of the first table. -/
theorem firstTable_of_firstIn {found : Option Config} (h : firstIn p files = .ok found) :
    (found = none ∧ firstTable p files = none) ∨
      ∃ directory entries config, found = some config ∧
        firstTable p files = some (directory, .table entries) ∧
        Describes p directory entries config := by
  induction files with
  | nil =>
    cases h
    exact .inl ⟨rfl, rfl⟩
  | cons f rest ih =>
    rw [firstIn] at h
    rw [firstTable, List.findSome?_cons]
    obtain ⟨inner, here, h⟩ := bind_ok h
    rcases tableIn_of_inFile here with ⟨rfl, absent⟩ | ⟨entries, config, rfl, held, described⟩
    · rw [absent]
      exact ih h
    · cases h
      rw [held]
      exact .inr ⟨f.1, entries, config, rfl, rfl, described⟩

end Files

end Config

end CssHighlight
