import CssHighlight.Proofs.SettingsSearch

/-!
# The layers of a configuration

Each setting of a configuration comes from the first layer that says something about it: the
override, the nearest table for settings, the default. The layers below the first one that speaks
do not matter, and a table that is empty hides those above it in the tree all the same.
-/
namespace CssHighlight.Config

/-- The override of a setting, if one was given. -/
def override? (overrides : List (String × Value)) (name : String) : Option Value :=
  Value.entry? (givenOverrides overrides) name

/-- The value of a setting from the first of the layers that has one. -/
def layered (overrides table : List (String × Value)) (name : String) (default : Value) : Value :=
  ((override? overrides name).or (Value.entry? table name)).getD default

/-- The dialect that a value stands for. -/
inductive Names (fallback : Dialect) : Value → Dialect → Prop
  | missing : Names fallback .null fallback
  | given (d : Dialect) : Names fallback (.dialect d) d
  | label {label : String} {d : Dialect} (named : Dialect.ofLabel? label = some d) :
      Names fallback (.str label) d

/-- What becomes of the path of a keyword file that a table in a directory gives. -/
inductive Anchored (p : Place) (directory : Path) : Value → Value → Prop
  | absolute {text : String} {path : Path} (some : text ≠ "")
      (expanded : p.expandHome (.ofText text) = .ok path) (rooted : path.isAbsolute = true) :
      Anchored p directory (.str text) (.str path.toText)
  | relative {text : String} {path : Path} (some : text ≠ "")
      (expanded : p.expandHome (.ofText text) = .ok path) (loose : path.isAbsolute = false) :
      Anchored p directory (.str text)
        (.str { directory with names := directory.names ++ path.names }.toText)
  | empty : Anchored p directory (.str "") (.str "")
  | other {value : Value} (noText : ∀ text, value ≠ .str text) : Anchored p directory value value

/-- The table for settings that counts for a directory. Without any, there are no entries. -/
inductive NearestTable (p : Place) (directory : Path) : Path → List (String × Value) → Prop
  | found {above : Path} {table : List (String × Value)}
      (first : firstTable p (settingsFiles directory) = some (above, .table table)) :
      NearestTable p directory above table
  | none (above : Path) (absent : firstTable p (settingsFiles directory) = none) :
      NearestTable p directory above []

/-- A configuration whose settings come from the layers. -/
structure Layers (p : Place) (fallback : Dialect) (overrides : List (String × Value))
    (directory : Path) (table : List (String × Value)) (config : Config) : Prop where
  dialect : ∃ d, Names fallback (layered overrides table "dialect" .null) d ∧
    config.dialect = .dialect d
  fold : config.fold = layered overrides table "fold" (.bool true)
  keywordsFile : ∃ anchored,
    Anchored p directory ((Value.entry? table "keywords_file").getD .null) anchored ∧
      config.keywordsFile = (override? overrides "keywords_file").getD anchored
  maxFileSize : config.maxFileSize =
    layered overrides table "max_file_size" (.int defaultMaxFileSize)

section Settings

variable {p : Place} {config config' : Config} {entries : List (String × Value)}
  {entry : String × Value} {name : String} {value : Value}

/-- The value of the setting of a given name. -/
def setting (config : Config) : String → Option Value
  | "dialect" => some config.dialect
  | "fold" => some config.fold
  | "keywords_file" => some config.keywordsFile
  | "max_file_size" => some config.maxFileSize
  | _ => none

theorem entry?_cons (entry : String × Value) (rest : List (String × Value)) (name : String) :
    Value.entry? (entry :: rest) name =
      (Value.entry? rest name).or (if entry.1 = name then some entry.2 else none) := by
  simp only [Value.entry?, List.reverse_cons, List.find?_append, Option.map_or]
  by_cases same : entry.1 = name
  · simp [same]
  · simp [same]

/-- Giving a value to one setting leaves the others alone. -/
theorem setting_put (put : config.put entry = .ok config')
    (had : config.setting name = some value) :
    config'.setting name = some (if entry.1 = name then entry.2 else value) := by
  unfold Config.put at put
  unfold setting at had
  split at put
  case h_5 => cases put
  all_goals
    next same =>
      cases put
      split at had
      case h_5 => cases had
      all_goals
        cases had
        simp [setting, same]

theorem setting_putAll (put : config.putAll entries = .ok config')
    (had : config.setting name = some value) :
    config'.setting name = some ((Value.entry? entries name).getD value) := by
  induction entries generalizing config value with
  | nil =>
    cases put
    exact had
  | cons entry rest ih =>
    rw [putAll, List.foldlM_cons] at put
    obtain ⟨between, first, put⟩ := bind_ok put
    rw [ih put (setting_put first had), entry?_cons]
    cases Value.entry? rest name with
    | none =>
      by_cases same : entry.1 = name <;> simp [same]
    | some found => rfl

/-- Only the path of the keyword file is changed when it is seen from a directory. -/
theorem anchorKeywords_eq {directory : Path}
    (anchored : config.anchorKeywords p directory = .ok config') :
    ∃ file, config' = { config with keywordsFile := file } ∧
      Anchored p directory config.keywordsFile file := by
  unfold anchorKeywords at anchored
  split at anchored
  next text given =>
    rw [given]
    split at anchored
    next nothing =>
      cases anchored
      exact ⟨.str text, by rw [← given], nothing ▸ .empty⟩
    next some =>
      cases expanded : p.expandHome (.ofText text) with
      | error cause =>
        rw [expanded] at anchored
        cases anchored
      | ok path =>
        rw [expanded] at anchored
        cases anchored
        refine ⟨_, rfl, ?_⟩
        cases rooted : path.isAbsolute with
        | true =>
          rw [Path.joinPath, if_pos rooted]
          exact .absolute some expanded rooted
        | false =>
          rw [Path.joinPath, if_neg (by simp [rooted])]
          exact .relative some expanded rooted
  next noText =>
    cases anchored
    exact ⟨_, rfl, .other fun text same => noText text same⟩

theorem names_of_chosenDialect {fallback d : Dialect}
    (chosen : config.chosenDialect fallback = .ok d) : Names fallback config.dialect d := by
  unfold chosenDialect at chosen
  split at chosen
  next missing =>
    cases chosen
    exact missing ▸ .missing
  next given =>
    cases chosen
    exact given ▸ .given d
  next label given =>
    rw [given]
    split at chosen
    next named =>
      cases chosen
      exact .label named
    next => cases chosen
  next => cases chosen

/-- Settings that were found stay the same when the dialect is given as such. -/
theorem settings_eq {fallback : Dialect} {found : Settings}
    (checked : config.settings fallback = .ok found) :
    config.chosenDialect fallback = .ok found.dialect ∧
      ∀ other, ({ config with dialect := .dialect found.dialect } : Config).settings other =
        .ok found := by
  have others (d : Dialect) (chosen : config.chosenDialect fallback = .ok d) (other : Dialect) :
      ({ config with dialect := .dialect d } : Config).settings other = .ok found := by
    -- The other checks do not look at the dialect.
    rw [settings, chosen] at checked
    exact checked
  have passed := checked
  rw [settings] at passed
  obtain ⟨d, chosen, passed⟩ := bind_ok passed
  obtain ⟨_, _, passed⟩ := bind_ok passed
  obtain ⟨_, _, passed⟩ := bind_ok passed
  obtain ⟨_, _, passed⟩ := bind_ok passed
  cases passed
  exact ⟨chosen, others d chosen⟩

end Settings

section Layers

variable {p : Place} {directory resolved above : Path} {fallback : Dialect} {config found : Config}
  {overrides table : List (String × Value)}

theorem eq_ok_of_toOption {ε α : Type} {result : Except ε α} {value : α}
    (some : result.toOption = some value) : result = .ok value := by
  cases result with
  | error cause => cases some
  | ok found =>
    cases some
    rfl

/-- A search finds what the nearest table describes. -/
theorem search_ok (searched : search p directory = .ok found) :
    ∃ resolved above table, p.resolve false directory = .ok resolved ∧
      NearestTable p resolved above table ∧ Describes p above table found := by
  unfold search at searched
  split at searched
  next => cases searched
  next resolved same =>
    rw [nearest_eq] at searched
    cases first : firstIn p (settingsFiles resolved) with
    | error cause =>
      rw [first] at searched
      cases searched
    | ok inner =>
      rw [first] at searched
      cases searched
      rcases firstTable_of_firstIn first with
        ⟨rfl, absent⟩ | ⟨above, entries, config, rfl, held, described⟩
      · exact ⟨resolved, resolved, [], same, .none resolved absent, {}, rfl, rfl⟩
      · exact ⟨resolved, above, entries, same, .found held, described⟩

/-- The overrides lie above the settings that a table describes, and these above the defaults. -/
theorem Describes.layered (described : Describes p above table found)
    (given : found.override overrides = .ok config) :
    config.dialect = layered overrides table "dialect" .null ∧
    config.fold = layered overrides table "fold" (.bool true) ∧
    config.maxFileSize = layered overrides table "max_file_size" (.int defaultMaxFileSize) ∧
    ∃ anchored, Anchored p above ((Value.entry? table "keywords_file").getD .null) anchored ∧
      config.keywordsFile = (override? overrides "keywords_file").getD anchored := by
  obtain ⟨inner, put, seen⟩ := described
  obtain ⟨file, rfl, anchored⟩ := anchorKeywords_eq seen
  -- A setting that is not the path of the keyword file is passed on as it is.
  have passed (name : String) {default value : Value}
      (start : ({} : Config).setting name = some default)
      (kept : ∀ value, inner.setting name = some value →
        ({ inner with keywordsFile := file } : Config).setting name = some value)
      (final : config.setting name = some value) :
      value = Config.layered overrides table name default := by
    have behind := setting_putAll given (kept _ (setting_putAll put start))
    rw [behind] at final
    cases final
    rw [Config.layered, override?]
    cases Value.entry? (givenOverrides overrides) name <;> rfl
  refine ⟨passed "dialect" rfl (fun _ same => same) rfl,
    passed "fold" rfl (fun _ same => same) rfl,
    passed "max_file_size" rfl (fun _ same => same) rfl, file, ?_, ?_⟩
  · have inside : inner.setting "keywords_file" =
        some ((Value.entry? table "keywords_file").getD .null) := setting_putAll put rfl
    rw [← Option.some.inj inside]
    exact anchored
  · have outside : config.setting "keywords_file" =
        some ((override? overrides "keywords_file").getD file) := setting_putAll given rfl
    exact Option.some.inj outside

/-- A configuration that is built has each of its settings from the first layer that says something
about it: the overrides, the nearest table, the defaults. It passes its own check, and its dialect
is settled. -/
theorem build_layers (built : build p directory fallback overrides = .ok config) :
    ∃ resolved above table, p.resolve false directory = .ok resolved ∧
      NearestTable p resolved above table ∧ Layers p fallback overrides above table config ∧
      config.validate = .ok () ∧ ∀ other, config.normalize other = .ok config := by
  unfold build at built
  obtain ⟨found, searched, built⟩ := bind_ok built
  obtain ⟨resolved, above, table, same, nearest, described⟩ := search_ok searched
  split at built
  next => cases built
  next given overridden =>
    obtain ⟨dialect, fold, size, file⟩ := described.layered overridden
    split at built
    next => cases built
    next settings checked =>
      cases built
      obtain ⟨chosen, others⟩ := settings_eq checked
      have names := names_of_chosenDialect chosen
      rw [dialect] at names
      refine ⟨resolved, above, table, same, nearest,
        ⟨⟨_, names, rfl⟩, fold, file, size⟩, ?_, fun other => rfl⟩
      rw [validate, others]
      rfl

end Layers

/-- A directory with settings for the ones below it, and one below it whose file has none. -/
def twoLevels : Place where
  tree := ⟨[(["a"], .directory), (["a", "b"], .directory),
    (["a", ".css-scanner.toml"], .file "[css-scanner]\nfold=false\nkeywords_file='k'\n".toUTF8 0),
    (["a", "b", "pyproject.toml"], .file "[tool.other]\n".toUTF8 0)]⟩
  directory := ["a", "b"]
  home := "/"
  homes := []

theorem build_layers_twoLevels :
    ∃ config, build twoLevels ⟨"", []⟩ .standard [("dialect", .str "scss"), ("fold", .null)] =
        .ok config ∧
      config.settings .standard = .ok ⟨.scss, false, some "/a/k", 10485760⟩ ∧
      ∃ resolved above table, twoLevels.resolve false ⟨"", []⟩ = .ok resolved ∧
        NearestTable twoLevels resolved above table ∧
        Layers twoLevels .standard [("dialect", .str "scss"), ("fold", .null)] above table config ∧
        config.validate = .ok () ∧ ∀ other, config.normalize other = .ok config := by
  have checked : ((build twoLevels ⟨"", []⟩ .standard
      [("dialect", .str "scss"), ("fold", .null)]).toOption.bind fun config =>
        (config.settings .standard).toOption) = some ⟨.scss, false, some "/a/k", 10485760⟩ := by
    decide +kernel
  obtain ⟨config, built, settled⟩ := Option.bind_eq_some_iff.mp checked
  have built := eq_ok_of_toOption built
  exact ⟨config, built, eq_ok_of_toOption settled, build_layers built⟩

end CssHighlight.Config
