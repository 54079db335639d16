import CssHighlight.CommandLine.Run
import CssHighlight.Proofs.OptionReading
import CssHighlight.Proofs.Variants

/-!
# How a run ends

A run ends with a listing or with a report on what is wrong, and its exit code tells which. This
holds for every frontend that keeps to the laws. Each stage of a run is followed here to what it can
fail for. What is left without a report are a few hazards, which come from the paths among the
arguments and from the files that go with a stylesheet.
-/
namespace CssHighlight

/-! ### Home directories and resolved paths -/

namespace Place

variable {p : Place} {path path' : Path} {cause : FileError}

theorem expandHome_error (failed : p.expandHome path = .error cause) :
    cause = .nullInPath ∨ cause = .unknownHome := by
  unfold expandHome at failed
  split at failed
  next name rest _ _ =>
    split at failed
    next =>
      split at failed
      next =>
        split at failed <;> cases failed
        · exact .inl rfl
        · exact .inr rfl
      next =>
        split at failed <;> cases failed
        exact .inr rfl
    next => cases failed
  next => cases failed

theorem expandHome_isPlain (plain : path.IsPlain) (expanded : p.expandHome path = .ok path') :
    path'.IsPlain := by
  unfold expandHome at expanded
  split at expanded
  next name rest _ names =>
    split at expanded
    next =>
      split at expanded
      next => cases expanded
      next home _ =>
        split at expanded <;> cases expanded
        have base := ofText_isPlain home
        have behind : ∀ other ∈ rest, other ∈ path.names := fun other member =>
          names ▸ List.mem_cons_of_mem _ member
        refine ⟨base.root, fun other member => ?_, fun other member => ?_, fun other member => ?_⟩
        all_goals rcases List.mem_append.mp member with member | member
        · exact base.given other member
        · exact plain.given other (behind other member)
        · exact base.noSlash other member
        · exact plain.noSlash other (behind other member)
        · exact base.noDot other member
        · exact plain.noDot other (behind other member)
    next =>
      cases expanded
      exact plain
  next =>
    cases expanded
    exact plain

theorem lookUp_ne_unknownHome {follow : Bool} {text : String} :
    p.lookUp follow text ≠ .error .unknownHome := by
  intro failed
  rcases lookUp_error failed with ⟨other, -⟩ | ⟨reason, other⟩ <;> cases other

theorem stat_ne_unknownHome {text : String} : p.stat text ≠ .error .unknownHome :=
  fun failed => lookUp_ne_unknownHome (map_error failed)

theorem linkStat_ne_unknownHome {text : String} : p.linkStat text ≠ .error .unknownHome :=
  fun failed => lookUp_ne_unknownHome (map_error failed)

theorem loopError_ne_unknownHome {text : String} : p.loopError text ≠ .unknownHome := by
  intro same
  rw [loopError] at same
  split at same
  next failed => exact stat_ne_unknownHome (same ▸ failed)
  next => cases same

theorem resolveSteps_ne_unknownHome {strict : Bool} {fuel : Nat} {seen : List (Path × Option Path)}
    {steps : List PathStep} : p.resolveSteps strict fuel path seen steps ≠ .error .unknownHome := by
  intro failed
  fun_induction p.resolveSteps strict fuel path seen steps
  -- A step fails for the link at its name, goes on, or ends in a path.
  case case7 looked _ =>
    cases failed
    exact linkStat_ne_unknownHome looked
  case case10 => exact loopError_ne_unknownHome (Except.error.inj failed)
  case case3 ih | case4 ih | case5 ih | case8 ih | case9 ih | case13 ih | case14 ih =>
    exact ih failed
  all_goals cases failed

/-- Where the home of a user is does not matter any more when a path is resolved. -/
theorem resolve_ne_unknownHome {strict : Bool} : p.resolve strict path ≠ .error .unknownHome := by
  intro failed
  rw [resolve] at failed
  split at failed
  next => cases failed
  next reason _ run =>
    cases failed
    exact resolveSteps_ne_unknownHome run
  next =>
    split at failed
    next => cases failed
    next =>
      simp only at failed
      split at failed <;> cases failed

end Place

namespace CommandLine

/-- A run has words for a failure. -/
def Failure.IsTold (failure : Failure) : Prop :=
  failure.report ≠ .none

/-- What a run has no words for. -/
inductive Hazard (f : Frontend) (p : Place) (limit : Option String) (arguments : List String) : Prop
  /-- An argument holds a null character, and the frontend cannot check it. -/
  | null {argument : String} {cause : FileError} (given : argument ∈ arguments)
      (null : '\x00' ∈ argument.toList) (failed : f.read p arguments = .failed cause)
  /-- The path of the file starts with a home directory that is not known. -/
  | home {i : Invocation} (accepted : f.read p arguments = .accepted i)
      (unknown : p.expandHome (.ofText i.file) = .error .unknownHome)
  /-- A link that leads back to itself stands in the way of a home directory. -/
  | loop {i : Invocation} {path : Path} {spot : String}
      (accepted : f.read p arguments = .accepted i)
      (expanded : p.expandHome (.ofText i.file) = .ok path) (elsewhere : path ≠ .ofText i.file)
      (loop : p.resolve true path = .error (.linkLoop spot))
  /-- Links on the way to a home directory lead to one another for too long. -/
  | nested {i : Invocation} {path : Path} (accepted : f.read p arguments = .accepted i)
      (expanded : p.expandHome (.ofText i.file) = .ok path) (elsewhere : path ≠ .ofText i.file)
      (deep : p.resolve true path = .error .tooDeep)
  /-- The file is found, but its resolved path is too long to be looked up. -/
  | tooLong {i : Invocation} {path resolved : Path} {spot : String}
      (accepted : f.read p arguments = .accepted i)
      (expanded : p.expandHome (.ofText i.file) = .ok path)
      (found : p.resolve true path = .ok resolved)
      (long : p.stat resolved.toText = .error (.system .nameTooLong spot))
  /-- A settings file that the search reads stops it. -/
  | settings {i : Invocation} {path : Path} {file : Config.SettingsFile}
      (accepted : f.read p arguments = .accepted i) (located : i.locate p = .ok path)
      (visited : Config.Visited p (Config.settingsFiles path.parent) file)
      (obstacle : Config.Obstacle p file)
  /-- The keyword file of the configuration is not loaded once the stylesheet has been read. -/
  | keywords {i : Invocation} {path : Path} {config : Config} {size : Int} {content text : String}
      {settings : Settings} (accepted : f.read p arguments = .accepted i)
      (located : i.locate p = .ok path) (configured : i.config p path = .ok config)
      (sized : Invocation.sizeLimit limit config = .ok size)
      (read : Invocation.readText p path size = .ok content)
      (checked : config.settings .standard = .ok settings)
      (given : settings.keywordsFile = some text) (obstacle : KeywordCache.Obstacle p text)

variable {f : Frontend} {p : Place} {limit : Option String} {arguments : List String}
  {i : Invocation} {path : Path} {failure : Failure}

/-! ### The stages of a run -/

section Stages

/-- The path as it was given leads to a file, so that a path which is not resolved is another. -/
theorem ne_given (wf : p.WellFormed) (lawful : f.Lawful p)
    (accepted : f.read p arguments = .accepted i) {cause : FileError}
    (unresolved : p.resolve true path = .error cause)
    (short : ∀ spot, cause ≠ .system .nameTooLong spot) : path ≠ .ofText i.file := by
  rintro rfl
  obtain ⟨entry, found⟩ := lawful.file accepted
  obtain ⟨there, looked⟩ := KeywordCache.lookUp_of_stat found
  rcases Place.resolve_of_lookUp wf looked with ⟨spot, long⟩ | resolved
  · exact short spot (Except.error.inj (unresolved.symm.trans long))
  · cases unresolved.symm.trans resolved

theorem locate_error (wf : p.WellFormed) (lawful : f.Lawful p)
    (accepted : f.read p arguments = .accepted i) (failed : i.locate p = .error failure) :
    failure.IsTold ∨ Hazard f p limit arguments := by
  obtain ⟨reason, refused, rfl⟩ := mapError_error failed
  rw [Stylesheet.locate] at refused
  split at refused
  next cause unexpanded =>
    cases refused
    rcases Place.expandHome_error unexpanded with rfl | rfl
    · exact .inl nofun
    · exact .inr (.home accepted unexpanded)
  next path expanded =>
    split at refused
    next =>
      cases refused
      exact .inl nofun
    next =>
      cases refused
      exact .inl nofun
    next cause _ noSystem unresolved =>
      cases refused
      cases cause with
      | system reason spot => exact absurd rfl (noSystem reason spot)
      | nullInPath => exact .inl nofun
      | unknownHome => exact absurd unresolved Place.resolve_ne_unknownHome
      | linkLoop spot =>
        have elsewhere := ne_given wf lawful accepted unresolved nofun
        exact .inr (.loop accepted expanded elsewhere unresolved)
      | tooDeep =>
        have elsewhere := ne_given wf lawful accepted unresolved nofun
        exact .inr (.nested accepted expanded elsewhere unresolved)
    next resolved found =>
      split at refused
      next =>
        split at refused <;> cases refused
        exact .inl nofun
      next spot long => exact .inr (.tooLong accepted expanded found long)
      next =>
        cases refused
        exact .inl nofun

/-- The path of a stylesheet that was found consists of the names of its place. -/
theorem locate_ok (wf : p.WellFormed) (located : i.locate p = .ok path) :
    ∃ there entry, path = ⟨"/", there⟩ ∧ p.tree.Stands there entry := by
  have located := mapError_ok located
  rw [Stylesheet.locate] at located
  split at located
  next => cases located
  next path' expanded =>
    split at located
    next => cases located
    next => cases located
    next => cases located
    next resolved strict =>
      obtain ⟨there, rfl, entry, stands⟩ := Place.resolve_ok wf
        (Place.expandHome_isPlain (ofText_isPlain i.file) expanded) strict
      split at located
      next =>
        split at located <;> cases located
        exact ⟨there, entry, rfl, stands⟩
      next => cases located
      next => cases located

theorem overrides_known {entry : String × Value} (member : entry ∈ i.overrides) (config : Config) :
    config.setting entry.1 ≠ none := by
  simp only [Invocation.overrides, List.mem_cons, List.not_mem_nil, or_false] at member
  rcases member with rfl | rfl | rfl <;> exact nofun

theorem config_error (wf : p.WellFormed) (accepted : f.read p arguments = .accepted i)
    (located : i.locate p = .ok path) (failed : i.config p path = .error failure) :
    failure.IsTold ∨ Hazard f p limit arguments := by
  obtain ⟨there, entry, rfl, stands⟩ := locate_ok wf located
  obtain ⟨reason, refused, rfl⟩ := mapError_error failed
  -- The search starts above the stylesheet, in a directory that is there and has no links.
  obtain ⟨entry', above⟩ := stands.of_prefix wf.tree (List.dropLast_prefix there)
  have here : p.resolve false (Path.mk "/" there).parent = .ok (Path.mk "/" there).parent :=
    Place.resolve_self wf above
  rcases Config.build_error here (fun _ => overrides_known) refused with
    ⟨cause, rfl⟩ | ⟨file, visited, obstacle⟩
  · exact .inl nofun
  · exact .inr (.settings accepted located visited obstacle)

/-- A configuration that is found has been checked. -/
theorem settings_of_config {config : Config} (configured : i.config p path = .ok config) :
    ∃ settings, config.settings .standard = .ok settings := by
  obtain ⟨_, _, _, _, _, _, valid, _⟩ := Config.build_layers (mapError_ok configured)
  rw [Config.validate] at valid
  cases checked : config.settings .standard with
  | ok settings => exact ⟨settings, rfl⟩
  | error cause =>
    rw [checked] at valid
    cases valid

theorem sizeLimit_error {config : Config}
    (failed : Invocation.sizeLimit limit config = .error failure) : failure.IsTold := by
  rw [Invocation.sizeLimit] at failed
  split at failed
  next =>
    cases failed
    exact nofun
  next =>
    obtain ⟨_, _, rfl⟩ := mapError_error failed
    exact nofun

theorem readText_error {limit : Int} (failed : Invocation.readText p path limit = .error failure) :
    failure.IsTold := by
  obtain ⟨_, _, rfl⟩ := mapError_error failed
  exact nofun

/-- A scan of a whole text can always be done once its options are there. -/
theorem scanAll_error {s : ScanSetup} {text : List Char} {cause : ScanError}
    (failed : (Document.ofChars text).scanAll p s = .error cause) : s.options p = .error cause := by
  cases options : s.options p with
  | ok o =>
    obtain ⟨d, r, scanned, -⟩ := Document.scanAll_written options text
    cases failed.symm.trans scanned
  | error reason =>
    have range : (Document.ofChars text).checkRange 0 (Document.ofChars text).length = .ok () :=
      if_neg (by omega)
    rw [Document.scanAll, Document.scan, range] at failed
    simp only [options] at failed
    cases failed
    rfl

/-- With settings that are checked, a scan fails for its keyword lists. -/
theorem scan_error {config : Config} {settings : Settings} {text : String}
    (checked : config.settings .standard = .ok settings)
    (failed : Invocation.scan p config text = .error failure) :
    ∃ reason, failure = .scan (.keywords reason) ∧
      ScanSetup.keywordSet p none settings = .error reason := by
  rw [Invocation.scan] at failed
  split at failed
  next => cases failed
  next cause refused =>
    cases failed
    have options := scanAll_error refused
    rw [ScanSetup.options] at options
    simp only [checked] at options
    split at options
    next reason unloaded =>
      cases options
      exact ⟨reason, rfl, unloaded⟩
    next => cases options

theorem keywordSet_error (wf : p.WellFormed) {settings : Settings} {cause : TableError}
    (failed : ScanSetup.keywordSet p none settings = .error (.other cause)) :
    ∃ text, settings.keywordsFile = some text ∧ KeywordCache.Obstacle p text := by
  unfold ScanSetup.keywordSet at failed
  split at failed
  next other => cases other
  next text _ given =>
    split at failed
    next => cases failed
    next => exact ⟨text, given, KeywordCache.obstacle_of_load wf (map_error failed)⟩
  next => cases failed

theorem run_error (wf : p.WellFormed) (lawful : f.Lawful p)
    (accepted : f.read p arguments = .accepted i) (failed : i.run f p limit = .error failure) :
    failure.IsTold ∨ Hazard f p limit arguments := by
  rw [Invocation.run] at failed
  rcases bind_error failed with failed | ⟨path, located, failed⟩
  · exact locate_error wf lawful accepted failed
  rcases bind_error failed with failed | ⟨config, configured, failed⟩
  · exact config_error wf accepted located failed
  rcases bind_error failed with failed | ⟨size, sized, failed⟩
  · exact .inl (sizeLimit_error failed)
  rcases bind_error failed with failed | ⟨content, read, failed⟩
  · exact .inl (readText_error failed)
  rcases bind_error failed with failed | ⟨document, _, failed⟩
  · obtain ⟨settings, checked⟩ := settings_of_config configured
    obtain ⟨reason, rfl, unloaded⟩ := scan_error checked failed
    cases reason with
    | other cause =>
      obtain ⟨text, given, obstacle⟩ := keywordSet_error wf unloaded
      exact .inr (.keywords accepted located configured sized read checked given obstacle)
    | unreadable => exact .inl nofun
    | malformed => exact .inl nofun
    | unknownLists => exact .inl nofun
    | notWords => exact .inl nofun
  · cases failed

end Stages

/-- A run ended as it should: with a listing, or with a report on what is wrong. -/
def Outcome.IsProper (outcome : Outcome) : Prop :=
  outcome.unexpected? = none ∧
    (outcome.exitCode = 0 ∨ outcome.exitCode = 1 ∨ outcome.exitCode = 2)

theorem isProper_ofEnding {ending : Ending}
    (code : ending.exitCode = 0 ∨ ending.exitCode = 2) : (Outcome.ofEnding ending).IsProper :=
  ⟨rfl, code.imp_right .inr⟩

theorem isProper_ofFailure (lawful : f.Lawful p) (told : failure.IsTold) :
    (Outcome.ofFailure f failure).IsProper := by
  refine ⟨?_, ?_⟩
  · simp [Outcome.unexpected?, Outcome.ofFailure, show ¬failure.report = .none from told]
  · rw [Outcome.ofFailure]
    cases report : failure.report with
    | misuse message => exact .inr (.inr (lawful.misuse message))
    | plain message => exact .inr (.inl (lawful.plain message))
    | none => exact absurd report told

theorem exitCode_of_run {ending : Ending} (done : i.run f p limit = .ok ending) :
    ending.exitCode = 0 := by
  rw [Invocation.run] at done
  obtain ⟨_, _, done⟩ := bind_ok done
  obtain ⟨_, _, done⟩ := bind_ok done
  obtain ⟨_, _, done⟩ := bind_ok done
  obtain ⟨_, _, done⟩ := bind_ok done
  obtain ⟨_, _, done⟩ := bind_ok done
  cases done
  rfl

/-- Every run ends as it should, whatever the files, the arguments and the environment are, unless
there is one of a few hazards. -/
theorem run_isProper (wf : p.WellFormed) (lawful : f.Lawful p) (limit : Option String)
    (arguments : List String) (safe : ¬Hazard f p limit arguments) :
    (run f p limit arguments).IsProper := by
  rw [run]
  split
  next ending ended => exact isProper_ofEnding (lawful.ended ended)
  next cause failed =>
    obtain ⟨argument, given, null⟩ := lawful.failed failed
    exact absurd (.null given null failed) safe
  next invocation accepted =>
    split
    next ending done => exact isProper_ofEnding (.inl (exitCode_of_run done))
    next failure failed =>
      exact isProper_ofFailure lawful ((run_error wf lawful accepted failed).resolve_right safe)

/-- A directory with an empty stylesheet and one settings file. -/
def besideSettings (settings : ByteArray) : Place :=
  (KeywordCache.bare.write "a.css" "".toUTF8 0).write "pyproject.toml" settings 0

theorem besideSettings_wellFormed (settings : ByteArray) : (besideSettings settings).WellFormed :=
  have empty : KeywordCache.bare.WellFormed := ⟨FileTree.wellFormed_nil, rfl⟩
  (empty.write _ _ _).write _ _ _

theorem besideSettings_noObstacle {f : Config.SettingsFile}
    (member : f ∈ Config.settingsFiles ⟨"/", []⟩) :
    ¬Config.Obstacle (besideSettings "[".toUTF8) f := by
  have files : Config.settingsFiles ⟨"/", []⟩ =
      [(⟨"/", []⟩, "pyproject.toml", [["tool", "css-scanner"]]),
        (⟨"/", []⟩, ".css-scanner.toml", [["css-scanner"], ["tool", "css-scanner"]])] := rfl
  rw [files, List.mem_cons, List.mem_singleton] at member
  intro obstacle
  cases obstacle with
  | tooLong long =>
    have known : ∃ found, (besideSettings "[".toUTF8).doesExist f.path = .ok found := by
      rcases member with rfl | rfl
      · exact ⟨true, by decide +kernel⟩
      · exact ⟨false, by decide +kernel⟩
    obtain ⟨found, known⟩ := known
    rw [Place.doesExist, long] at known
    cases known
  | garbled garbled =>
    rcases member with rfl | rfl
    · have text : (besideSettings "[".toUTF8).readText "/pyproject.toml" = .ok "[" := by
        decide +kernel
      have malformed : Toml.parse (besideSettings "[".toUTF8).stack "[" = .error .malformed := by
        rw [besideSettings, Place.stack_write, Place.stack_write]
        rfl
      cases garbled with
      | notUtf8 read => cases text.symm.trans read
      | digits read parsed | nested read parsed =>
        cases text.symm.trans read
        cases malformed.symm.trans parsed
    · have missing : (besideSettings "[".toUTF8).readText "/.css-scanner.toml" =
          .error (.file (.system .noEntry "/.css-scanner.toml")) := by decide +kernel
      cases garbled with
      | notUtf8 read => cases missing.symm.trans read
      | digits read | nested read => cases missing.symm.trans read
  | home table =>
    have none : (Config.tableIn (besideSettings "[".toUTF8) f).isNone := by
      rcases member with rfl | rfl <;> decide +kernel
    rw [table] at none
    cases none

theorem besideSettings_safe (limit : Option String) :
    ¬Hazard .conventional (besideSettings "[".toUTF8) limit ["a.css"] := by
  have reading : Frontend.conventional.read (besideSettings "[".toUTF8) ["a.css"] =
      .accepted ⟨"a.css", none, none, "tokens", none, false⟩ := by decide +kernel
  have located : Invocation.locate (besideSettings "[".toUTF8)
      ⟨"a.css", none, none, "tokens", none, false⟩ = .ok ⟨"/", ["a.css"]⟩ :=
    Config.eq_ok_of_toOption (by decide +kernel)
  have expanded : (besideSettings "[".toUTF8).expandHome (.ofText "a.css") =
      .ok (.ofText "a.css") := by decide +kernel
  intro hazard
  cases hazard with
  | null _ _ failed => cases reading.symm.trans failed
  | home accepted unknown =>
    cases reading.symm.trans accepted
    cases expanded.symm.trans unknown
  | loop accepted expanded' elsewhere | nested accepted expanded' elsewhere =>
    cases reading.symm.trans accepted
    exact elsewhere (Except.ok.inj (expanded'.symm.trans expanded))
  | tooLong accepted expanded' found long =>
    cases reading.symm.trans accepted
    cases expanded.symm.trans expanded'
    have resolved : (besideSettings "[".toUTF8).resolve true (.ofText "a.css") =
        .ok ⟨"/", ["a.css"]⟩ := by decide +kernel
    cases resolved.symm.trans found
    have short : ((besideSettings "[".toUTF8).stat (Path.mk "/" ["a.css"]).toText).isOk := by
      decide +kernel
    rw [long] at short
    cases short
  | settings accepted located' visited obstacle =>
    cases reading.symm.trans accepted
    cases located.symm.trans located'
    obtain ⟨before, behind, files, -⟩ := visited
    exact besideSettings_noObstacle
      (files ▸ List.mem_append_right before List.mem_cons_self) obstacle
  | keywords accepted located' configured _ _ checked given =>
    cases reading.symm.trans accepted
    cases located.symm.trans located'
    have none : ((Invocation.config (besideSettings "[".toUTF8) ⟨"/", ["a.css"]⟩
        ⟨"a.css", none, none, "tokens", none, false⟩).toOption.bind fun config =>
          (config.settings .standard).toOption.bind (·.keywordsFile)) = none := by decide +kernel
    rw [configured] at none
    simp only [Except.toOption, Option.bind_some, checked, given] at none
    cases none

/-- Settings that are no TOML are passed over, and a wrong size limit is reported. -/
theorem run_isProper_besideSettings :
    (besideSettings "[".toUTF8).WellFormed ∧
      Frontend.conventional.Lawful (besideSettings "[".toUTF8) ∧
      ¬Hazard .conventional (besideSettings "[".toUTF8) (some "0") ["a.css"] ∧
      (run .conventional (besideSettings "[".toUTF8) (some "0") ["a.css"]).IsProper ∧
      (run .conventional (besideSettings "[".toUTF8) (some "0") ["a.css"]).exitCode = 1 :=
  ⟨besideSettings_wellFormed _, Frontend.conventional_lawful _, besideSettings_safe _,
    run_isProper (besideSettings_wellFormed _) (Frontend.conventional_lawful _) _ _
      (besideSettings_safe _), by decide +kernel⟩

/-- Settings that are no UTF-8 are neither passed over nor reported. -/
theorem run_notUtf8_ne :
    (besideSettings ⟨#[0xff]⟩).WellFormed ∧
      Frontend.conventional.Lawful (besideSettings ⟨#[0xff]⟩) ∧
      ¬(run .conventional (besideSettings ⟨#[0xff]⟩) none ["a.css"]).IsProper := by
  refine ⟨besideSettings_wellFormed _, Frontend.conventional_lawful _, fun proper => ?_⟩
  have unexpected :
      (run .conventional (besideSettings ⟨#[0xff]⟩) none ["a.css"]).unexpected?.isSome := by
    decide +kernel
  rw [proper.1] at unexpected
  cases unexpected

end CommandLine

end CssHighlight
