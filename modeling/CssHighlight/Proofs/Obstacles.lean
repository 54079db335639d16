import CssHighlight.Proofs.CacheContents
import CssHighlight.Proofs.LargerStack
import CssHighlight.Proofs.Layering

/-!
# Files that stop a run

A search for settings passes over files that cannot be read, and a keyword file that cannot be read
has its own error. What is left is the text that is no UTF-8, the number with too many digits, the
values nested too deep, and the path that fails before its file is opened.
-/
namespace CssHighlight

/-! ### Paths and texts of files -/

namespace Place

variable {p : Place} {text path : String} {cause : FileError}

/-- A file has a text that is neither a table nor an error in the layout of one. -/
inductive Garbled (p : Place) (path : String) : Prop
  | notUtf8 (read : p.readText path = .error .notUtf8)
  | digits {text : String} {n : Nat} (read : p.readText path = .ok text)
      (parsed : Toml.parse p.stack text = .error (.tooManyDigits n))
  /-- Its arrays and inline tables are nested too deep for the stack. -/
  | nested {text : String} (read : p.readText path = .ok text)
      (parsed : Toml.parse p.stack text = .error .tooDeep)

/-- What is garbled with a larger stack is garbled with a smaller one, so that nothing is missed
where the fewest calls are left. -/
theorem Garbled.of_withStack {stack : Nat} {more : p.stack ≤ stack}
    (garbled : (p.withStack more).Garbled path) : p.Garbled path := by
  cases garbled with
  | notUtf8 read => exact .notUtf8 read
  | @digits text n read parsed =>
    rcases Toml.extends_parse text more with tooFew | same
    · exact .nested read tooFew
    · exact .digits read (same.symm.trans parsed)
  | @nested text read parsed =>
    rcases Toml.extends_parse text more with tooFew | same
    · exact .nested read tooFew
    · exact .nested read (same.symm.trans parsed)

theorem lookUp_error {follow : Bool} (failed : p.lookUp follow text = .error cause) :
    (cause = .nullInPath ∧ '\x00' ∈ text.toList) ∨ ∃ reason, cause = .system reason text := by
  rw [lookUp] at failed
  split at failed
  next null =>
    cases failed
    exact .inl ⟨rfl, by simpa using null⟩
  next =>
    refine .inr ?_
    split at failed
    next =>
      cases failed
      exact ⟨_, rfl⟩
    next =>
      split at failed
      next =>
        cases failed
        exact ⟨_, rfl⟩
      next =>
        cases walked : p.tree.walk follow maxLinks (if Path.isRooted text then [] else p.directory)
            (FileTree.stepsOf text) with
        | ok found => simp [walked] at failed
        | error reason =>
          simp only [walked] at failed
          cases failed
          exact ⟨reason, rfl⟩

theorem stat_error (failed : p.stat text = .error cause) :
    (cause = .nullInPath ∧ '\x00' ∈ text.toList) ∨ ∃ reason, cause = .system reason text :=
  lookUp_error (map_error failed)

theorem read_error (failed : p.read text = .error cause) :
    p.stat text = .error cause ∨ ∃ entry, p.stat text = .ok entry ∧
      cause = .system .isDirectory text := by
  rw [read] at failed
  split at failed
  next found =>
    cases failed
    exact .inl found
  next => cases failed
  next entry _ found =>
    cases failed
    exact .inr ⟨entry, found, rfl⟩

theorem readTable_error {cause : TableError} (failed : p.readTable path = .error cause) :
    (∃ reason, cause = .read (.file reason) ∧ p.read path = .error reason) ∨
      cause = .toml .malformed ∨ p.Garbled path := by
  rw [readTable] at failed
  split at failed
  next reason unread =>
    cases failed
    rw [readText] at unread
    split at unread
    next reason failed =>
      cases unread
      exact .inl ⟨reason, rfl, failed⟩
    next bytes read =>
      split at unread
      next => cases unread
      next broken =>
        refine .inr (.inr (.notUtf8 ?_))
        rw [readText, read]
        simp only [broken]
  next text read =>
    split at failed
    next => cases failed
    next reason parsed =>
      cases failed
      cases reason with
      | malformed => exact .inr (.inl rfl)
      | tooManyDigits n => exact .inr (.inr (.digits read parsed))
      | tooDeep => exact .inr (.inr (.nested read parsed))

end Place

/-! ### Settings files -/

namespace Config

/-- Why a settings file that is read in a search stops it. -/
inductive Obstacle (p : Place) (f : SettingsFile) : Prop
  | tooLong {spot : String} (long : p.stat f.path = .error (.system .nameTooLong spot))
  | garbled (garbled : p.Garbled f.path)
  /-- The path of its keyword file starts with a home directory that is not known. -/
  | home {entries : List (String × Value)} {text : String} {cause : FileError}
      (table : tableIn p f = some (.table entries))
      (given : Value.entry? entries "keywords_file" = some (.str text))
      (unknown : p.expandHome (.ofText text) = .error cause)

/-- A search reads a file of a list: no file before it has a table. -/
def Visited (p : Place) (files : List SettingsFile) (f : SettingsFile) : Prop :=
  ∃ before behind, files = before ++ f :: behind ∧ firstTable p before = none

section Search

variable {p : Place} {f : SettingsFile} {files : List SettingsFile} {config : Config}
  {cause : SearchError} {directory resolved : Path} {fallback : Dialect}
  {entries overrides : List (String × Value)}

/-- The path of a keyword file is all that can go wrong with a proper table. -/
theorem obstacle_of_anchorKeywords {reason : FileError}
    (held : tableIn p f = some (.table entries)) (put : ({} : Config).putAll entries = .ok config)
    (failed : config.anchorKeywords p f.1 = .error reason) : Obstacle p f := by
  unfold anchorKeywords at failed
  split at failed
  next text given =>
    split at failed
    next => cases failed
    next =>
      have setting : config.setting "keywords_file" =
          some ((Value.entry? entries "keywords_file").getD .null) := setting_putAll put rfl
      have given' : (Value.entry? entries "keywords_file").getD .null = .str text :=
        (Option.some.inj setting).symm.trans given
      cases held' : Value.entry? entries "keywords_file" with
      | none =>
        rw [held'] at given'
        cases given'
      | some value =>
        rw [held'] at given'
        cases given'
        cases expanded : p.expandHome (.ofText text) with
        | error cause => exact .home held held' expanded
        | ok path =>
          rw [expanded] at failed
          cases failed
  next => cases failed

theorem inFile_error (failed : inFile p f.1 f.2 = .error cause) :
    (∃ reason, cause = .config reason) ∨ Obstacle p f := by
  unfold inFile at failed
  simp only [show (f.1.join f.2.1).toText = f.path from rfl] at failed
  split at failed
  next reason long =>
    unfold Place.doesExist at long
    split at long
    next => cases long
    next spot found => exact .inr (.tooLong found)
    next => cases long
  next => cases failed
  next exists' =>
    split at failed
    next => cases failed
    next => cases failed
    next reason noSystem noLayout unread =>
      rcases Place.readTable_error unread with ⟨reason, rfl, refused⟩ | rfl | garbled
      · -- The file exists, so it can only be a directory, and this is passed over.
        rcases Place.read_error refused with missing | ⟨_, _, rfl⟩
        · unfold Place.doesExist at exists'
          rw [missing] at exists'
          split at exists' <;> cases exists'
          next found => cases found
        · exact absurd rfl (noSystem .isDirectory f.path)
      · exact absurd rfl noLayout
      · exact .inr (.garbled garbled)
    next entries read =>
      have held := tableIn_of_read read
      split at failed
      next => cases failed
      next key value first =>
        split at failed
        next reason _ =>
          cases failed
          exact .inl ⟨reason, rfl⟩
        next given built =>
          split at failed
          next unanchored =>
            obtain ⟨table, rfl, put⟩ := putAll_of_ofValue built
            rw [first] at held
            exact .inr (obstacle_of_anchorKeywords held put unanchored)
          next => cases failed

/-- A search among files fails for the contents of a table, or for a file that it cannot read. -/
theorem firstIn_error (failed : firstIn p files = .error cause) :
    (∃ reason, cause = .config reason) ∨ ∃ f, Visited p files f ∧ Obstacle p f := by
  induction files with
  | nil => cases failed
  | cons f rest ih =>
    rw [firstIn] at failed
    rcases bind_error failed with refused | ⟨found, here, failed⟩
    · rcases inFile_error refused with told | obstacle
      · exact .inl told
      · exact .inr ⟨f, ⟨[], rest, rfl, rfl⟩, obstacle⟩
    · rcases tableIn_of_inFile here with ⟨rfl, absent⟩ | ⟨_, _, rfl, _⟩
      · rcases ih failed with told | ⟨g, ⟨before, behind, rfl, none⟩, obstacle⟩
        · exact .inl told
        · refine .inr ⟨g, ⟨f :: before, behind, rfl, ?_⟩, obstacle⟩
          rw [firstTable, List.findSome?_cons, absent]
          exact none
      · cases failed

/-- Values for known settings can be put into a configuration. -/
theorem putAll_known (config : Config)
    (known : ∀ entry ∈ entries, ∀ config : Config, config.setting entry.1 ≠ none) :
    ∃ config', config.putAll entries = .ok config' := by
  induction entries generalizing config with
  | nil => exact ⟨config, rfl⟩
  | cons entry rest ih =>
    have here : ∃ between, config.put entry = .ok between := by
      have some := known entry List.mem_cons_self config
      unfold Config.put
      unfold setting at some
      split <;> simp_all
    obtain ⟨between, put⟩ := here
    rw [putAll, List.foldlM_cons, put]
    exact ih between fun other member => known other (List.mem_cons_of_mem _ member)

theorem build_error (here : p.resolve false directory = .ok resolved)
    (known : ∀ entry ∈ overrides, ∀ config : Config, config.setting entry.1 ≠ none)
    (failed : build p directory fallback overrides = .error cause) :
    (∃ reason, cause = .config reason) ∨
      ∃ f, Visited p (settingsFiles resolved) f ∧ Obstacle p f := by
  unfold build at failed
  rcases bind_error failed with refused | ⟨found, _, failed⟩
  · rw [search, here] at refused
    simp only [nearest_eq] at refused
    exact firstIn_error (map_error refused)
  · obtain ⟨config, overridden⟩ := putAll_known found
      fun entry member => known entry (List.mem_filter.mp member).1
    rw [override, givenOverrides, overridden] at failed
    simp only at failed
    split at failed
    next reason _ =>
      cases failed
      exact .inl ⟨reason, rfl⟩
    next => cases failed

end Search

end Config

/-! ### Keyword files -/

namespace KeywordCache

/-- Why keyword lists are not loaded, and not for the keyword file's fault. -/
inductive Obstacle (p : Place) (text : String) : Prop
  | null (null : '\x00' ∈ text.toList)
  | garbled (garbled : p.Garbled (Path.ofText text).toText)
  /-- The file is found, but a path that is too long comes up while its path is resolved. -/
  | tooLong {entry : Entry} {spot : String} (found : p.stat (Path.ofText text).toText = .ok entry)
      (long : p.resolve true (.ofText text) = .error (.system .nameTooLong spot))

section Load

variable {p : Place} {text : String} {cause : TableError}

theorem null_of_toText (null : '\x00' ∈ (Path.ofText text).toText.toList) :
    '\x00' ∈ text.toList := by
  rcases (ofText_isPlain text).mem_toText null with slash | dot | ⟨name, member, held⟩
  · exact absurd slash (by decide)
  · exact absurd dot (by decide)
  · exact (mem_of_mem_namesOf (List.mem_filter.mp member).1 held).1

theorem putEntry_error {path : String} {set : KeywordSet} {entry : String × Value}
    {reason : KeywordError} (failed : KeywordSet.putEntry path set entry = .error reason) :
    reason = .notWords path entry.1 := by
  rw [KeywordSet.putEntry] at failed
  split at failed <;> cases failed
  rfl

theorem foldlM_putEntry_error {path : String} {entries : Toml.Entries} {set : KeywordSet}
    {reason : KeywordError}
    (failed : entries.foldlM (KeywordSet.putEntry path) set = .error reason) :
    ∃ name, reason = .notWords path name := by
  induction entries generalizing set with
  | nil => cases failed
  | cons entry rest ih =>
    rw [List.foldlM_cons] at failed
    rcases bind_error failed with refused | ⟨_, _, failed⟩
    · exact ⟨_, putEntry_error refused⟩
    · exact ih failed

theorem ofEntries_error {path : String} {entries : Toml.Entries} {reason : KeywordError}
    (failed : KeywordSet.ofEntries path entries = .error reason) :
    (∃ names, reason = .unknownLists path names) ∨ ∃ name, reason = .notWords path name := by
  rw [KeywordSet.ofEntries] at failed
  split at failed
  next => exact .inr (foldlM_putEntry_error failed)
  next =>
    cases failed
    exact .inl ⟨_, rfl⟩

/-- What is passed on of a keyword file is not the fault of its layout. -/
theorem garbled_of_load {path : Path} (failed : KeywordSet.load p path = .error (.other cause)) :
    '\x00' ∈ path.toText.toList ∨ p.Garbled path.toText := by
  rw [KeywordSet.load] at failed
  split at failed
  -- A table that was read has words for whatever is wrong with it.
  next entries _ =>
    rcases ofEntries_error failed with ⟨_, told⟩ | ⟨_, told⟩ <;> cases told
  next reason unread =>
    rcases Place.readTable_error unread with ⟨reason, rfl, refused⟩ | rfl | garbled
    · rcases Place.read_error refused with missing | ⟨_, _, rfl⟩
      · rcases Place.stat_error missing with ⟨rfl, null⟩ | ⟨_, rfl⟩
        · exact .inl null
        · cases failed
      · cases failed
    · cases failed
    · exact .inr garbled

theorem eq_of_unplaced {reason : KeywordError} (same : reason.unplaced = .other cause) :
    reason = .other cause := by
  unfold KeywordError.unplaced at same
  split at same <;> first | exact same | cases same

/-- A load passes on what is wrong with the path of a keyword file or with its text. -/
theorem obstacle_of_load (wf : p.WellFormed)
    (failed : (empty.load p (.ofText text)).2 = .error (.other cause)) : Obstacle p text := by
  have plain := ofText_isPlain text
  by_cases reach : OutOfReach p (.ofText text)
  · obtain ⟨⟨entry, found⟩, ⟨spot, long⟩ | ⟨resolved, strict, long⟩⟩ := reach
    · exact .tooLong found long
    · -- A resolved path that is too long has words.
      obtain ⟨there, looked⟩ := lookUp_of_stat found
      have stands := Place.lookUp_stands wf looked
      have straight := Place.straight_of_stands wf stands
      have same := Place.resolve_of_lookUp wf looked
      rw [plain.ofText_toText] at same
      rcases same with ⟨spot, other⟩ | same
      · cases strict.symm.trans other
      · cases strict.symm.trans same
        have lost := straight.stat wf stands.1
        rw [if_pos long] at lost
        have told := load_unreadable found (Place.resolve_lenient wf stands same)
          (straight.isPlain wf) lost
        cases failed.symm.trans told
  · have honest : Honest p.stack [] empty := fun _ none => by cases none
    have loads := load_loads p (.ofText text) empty
    rw [failed] at loads
    have agree := loads.agree wf plain reach honest fun a found b found' version bytes bytes' _ _
        read read' => by
      rw [List.mem_singleton] at found found'
      subst found found'
      exact Except.ok.inj (read.symm.trans read')
    cases loaded : KeywordSet.load p (.ofText text) with
    | ok set =>
      rw [loaded] at agree
      cases agree
    | error reason =>
      rw [loaded] at agree
      rw [eq_of_unplaced (Except.error.inj agree).symm] at loaded
      rcases garbled_of_load loaded with null | garbled
      · exact .null (null_of_toText null)
      · exact .garbled garbled

end Load

end KeywordCache

end CssHighlight
