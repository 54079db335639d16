import CssHighlight.Proofs.InPlace

/-!
# Misuse

A scan is refused for its range, for its configuration, or for the line data that it starts from,
and for nothing else. What the text holds never stops it.
-/
namespace CssHighlight

namespace Document

variable {d : Document} {start : Nat}

/-- A scan that must not take place, and the error that it is refused with: its range does not fit,
or else its configuration is not valid, or else the line above it has no number for its state. -/
inductive Misuse (d : Document) (config : Config) (start length : Int) : ScanError → Prop
  | range (outside : start < 0 ∨ length < 0 ∨ d.length < start + length) :
      Misuse d config start length (.range ⟨start, length, d.length⟩)
  | config {cause : ConfigError} (inside : 0 ≤ start ∧ 0 ≤ length ∧ start + length ≤ d.length)
      (invalid : config.validate = .error cause) : Misuse d config start length (.config cause)
  | lineState {line : Nat} {value : Value}
      (inside : 0 ≤ start ∧ 0 ≤ length ∧ start + length ≤ d.length)
      (valid : config.validate = .ok ()) (below : d.lineAt start = line + 1)
      (stored : d.lineState line = .ok value) (wrong : ∀ state : Nat, value ≠ .int state) :
      Misuse d config start length (.lineData (.notLineState value))

theorem decode_error_iff {value : Value} {x : Context} {cause : LineDataError} :
    LineState.decode value x = .error cause ↔
      (∀ state : Nat, value ≠ .int state) ∧ cause = .notLineState value := by
  constructor
  · intro failed
    unfold LineState.decode at failed
    split at failed
    · cases failed
    next wrong =>
      cases failed
      exact ⟨wrong, rfl⟩
  · rintro ⟨wrong, rfl⟩
    unfold LineState.decode
    split
    next state => exact (wrong state rfl).elim
    · rfl

/-- A context cannot be restored when the line state above is no number. -/
theorem contextAt_error_iff (sized : d.Sized) {initStyle : Style} {cause : LineDataError} :
    d.contextAt start initStyle = .error cause ↔ ∃ line : Nat, ∃ value : Value,
      d.lineAt start = line + 1 ∧ d.lineState line = .ok value ∧
        (∀ state : Nat, value ≠ .int state) ∧ cause = .notLineState value := by
  have inside : lineEnds start d.text < d.lineCount := lineEnds_lt_length start d.text
  have mapped :
      d.contextAt start initStyle = .error cause ↔ d.lineContext start = .error cause := by
    rw [contextAt_eq_map]
    cases d.lineContext start <;> simp [Except.map]
  rw [mapped]
  unfold lineContext
  rw [lineAt_eq, Int.toNat_natCast]
  cases line : lineEnds start d.text with
  | zero =>
    constructor
    · exact nofun
    · rintro ⟨line', _, below, -⟩
      omega
  | succ line' =>
    have state : line' < d.lineStates.length := by
      rw [sized.lineStates]
      omega
    have stored : d.lineState line' = .ok d.lineStates[line'] := by
      rw [lineState, itemAt_natCast, List.getElem?_eq_getElem state]
    rw [if_pos (Nat.succ_pos line'), Nat.add_sub_cancel, List.getElem?_eq_getElem state,
      Option.getD_some, decode_error_iff]
    constructor
    · rintro ⟨wrong, rfl⟩
      exact ⟨line', _, rfl, stored, wrong, rfl⟩
    · rintro ⟨line, value, below, found, wrong, rfl⟩
      obtain rfl : line = line' := by omega
      rw [stored] at found
      cases found
      exact ⟨wrong, rfl⟩

section Refused

variable {config : Config} {start length : Int} {cause : ScanError}

/-- With keyword lists at hand, only the configuration may be refused. -/
theorem options_cases (p : Place) (config : Config) (keywords : KeywordSet) :
    (∃ wrong, config.validate = .error wrong ∧
      ScanSetup.options p ⟨config, some keywords⟩ = .error (.config wrong)) ∨
    (config.validate = .ok () ∧ ∃ o, ScanSetup.options p ⟨config, some keywords⟩ = .ok o) := by
  unfold Config.validate ScanSetup.options
  cases config.settings .standard with
  | error wrong => exact .inl ⟨wrong, rfl, rfl⟩
  | ok chosen => exact .inr ⟨rfl, _, rfl⟩

theorem misuse_of_scan_error (sized : d.Sized) {p : Place} {keywords : KeywordSet}
    {initStyle : Style}
    (refused : d.scan p ⟨config, some keywords⟩ start length initStyle = .error cause) :
    Misuse d config start length cause := by
  by_cases outside : start < 0 ∨ length < 0 ∨ (d.length : Int) < start + length
  · simp only [Document.scan, checkRange, if_pos outside] at refused
    cases refused
    exact .range outside
  have range : d.checkRange start length = .ok () := if_neg outside
  have inside := checkRange_eq_ok range
  rcases options_cases p config keywords with ⟨wrong, invalid, options⟩ | ⟨valid, o, options⟩
  · simp only [Document.scan, range, options] at refused
    cases refused
    exact .config inside invalid
  · obtain ⟨start, rfl⟩ := Int.eq_ofNat_of_zero_le inside.1
    simp only [Document.scan, range, options, scanRange, Int.toNat_natCast] at refused
    cases found : d.contextAt start initStyle with
    | ok x =>
      rw [found] at refused
      cases refused
    | error wrong =>
      rw [found] at refused
      cases refused
      obtain ⟨line, value, below, stored, wrong, rfl⟩ := (contextAt_error_iff sized).mp found
      exact .lineState inside valid below stored wrong

theorem Misuse.scan_error (sized : d.Sized) (misuse : Misuse d config start length cause)
    (p : Place) (keywords : KeywordSet) (initStyle : Style) :
    d.scan p ⟨config, some keywords⟩ start length initStyle = .error cause := by
  have checked (inside : 0 ≤ start ∧ 0 ≤ length ∧ start + length ≤ d.length) :
      d.checkRange start length = .ok () := if_neg (by omega)
  cases misuse with
  | range outside => simp only [Document.scan, checkRange, if_pos outside]
  | @config wrong inside invalid =>
    rcases options_cases p config keywords with ⟨other, invalid', options⟩ | ⟨valid, -⟩
    · obtain rfl : wrong = other := Except.error.inj (invalid.symm.trans invalid')
      simp only [Document.scan, checked inside, options]
    · cases invalid.symm.trans valid
  | @lineState line value inside valid below stored wrong =>
    rcases options_cases p config keywords with ⟨_, invalid, -⟩ | ⟨-, o, options⟩
    · cases invalid.symm.trans valid
    · obtain ⟨start, rfl⟩ := Int.eq_ofNat_of_zero_le inside.1
      have found : d.contextAt start initStyle = .error (.notLineState value) :=
        (contextAt_error_iff sized).mpr ⟨line, value, below, stored, wrong, rfl⟩
      simp only [Document.scan, checked inside, options, scanRange, Int.toNat_natCast, found,
        Except.map]

/-- With keyword lists at hand, a scan is refused on misuse. -/
theorem scan_error_iff (sized : d.Sized) (p : Place) (config : Config) (keywords : KeywordSet)
    (start length : Int) (initStyle : Style) (cause : ScanError) :
    d.scan p ⟨config, some keywords⟩ start length initStyle = .error cause ↔
      Misuse d config start length cause :=
  ⟨misuse_of_scan_error sized, fun misuse => misuse.scan_error sized p keywords initStyle⟩

end Refused

/-- A scan in place halts on misuse only, and then leaves the document as it was. In every other
case it comes to its end, without an access outside the document or line data that cannot be
stored. -/
theorem scanInPlace_halts_iff (sized : d.Sized) (p : Place) (config : Config)
    (keywords : KeywordSet) (start length : Int) (initStyle : Style) :
    let outcome := (scanInPlace p ⟨config, some keywords⟩ start length initStyle).on d
    (∀ fault, outcome.1 = .error fault ↔
        ∃ cause, Misuse d config start length cause ∧ fault = .refused cause) ∧
      ((∃ cause, Misuse d config start length cause) → outcome.2 = d) ∧
      ((∀ cause, ¬Misuse d config start length cause) → ∃ r, outcome.1 = .ok r ∧
        d.scan p ⟨config, some keywords⟩ start length initStyle = .ok (outcome.2, r)) := by
  intro outcome
  have same : outcome = _ := on_scanInPlace sized p ⟨config, some keywords⟩ start length initStyle
  have refused := scan_error_iff sized p config keywords start length initStyle
  rw [same]
  cases scanned : d.scan p ⟨config, some keywords⟩ start length initStyle with
  | ok result =>
    rw [scanned] at refused
    have none (cause : ScanError) : ¬Misuse d config start length cause := fun misuse =>
      nomatch (refused cause).mpr misuse
    refine ⟨fun fault => ⟨nofun, ?_⟩, ?_, fun _ => ⟨result.2, rfl, rfl⟩⟩
    · rintro ⟨cause, misuse, -⟩
      exact (none cause misuse).elim
    · rintro ⟨cause, misuse⟩
      exact (none cause misuse).elim
  | error cause =>
    rw [scanned] at refused
    have misuse := (refused cause).mp rfl
    refine ⟨fun fault => ⟨?_, ?_⟩, fun _ => rfl, fun none => (none cause misuse).elim⟩
    · rintro ⟨⟩
      exact ⟨cause, misuse, rfl⟩
    · rintro ⟨other, misuse', rfl⟩
      rw [← Except.error.inj ((refused other).mpr misuse')]

/-- A document with odd data, scanned behind a line whose state is no number, and from its front. -/
theorem scanInPlace_halts_iff_text :
    let d : Document :=
      ⟨['a', '\n', '('], [.number, .url, .tag], [some (-7), none], [.str "?", .bool true]⟩
    let behind := (scanInPlace default ⟨{}, some .builtin⟩ 2 1 .number).on d
    d.Sized ∧ Misuse d {} 2 1 (.lineData (.notLineState (.str "?"))) ∧
      behind.1 = .error (.refused (.lineData (.notLineState (.str "?")))) ∧ behind.2 = d ∧
      ∃ r, ((scanInPlace default ⟨{}, some .builtin⟩ 0 3 .number).on d).1 = .ok r := by
  intro d behind
  have sized : d.Sized := ⟨rfl, by decide, rfl⟩
  have misuse : Misuse d {} 2 1 (.lineData (.notLineState (.str "?"))) :=
    @Misuse.lineState _ _ _ _ 0 _ (by decide) rfl (by decide) rfl nofun
  have none (cause : ScanError) : ¬Misuse d {} 0 3 cause := by
    intro misuse
    cases misuse with
    | range outside => exact absurd outside (by decide)
    | config _ invalid => cases invalid
    | lineState _ _ below =>
      have first : d.lineAt 0 = 0 := by decide
      omega
  obtain ⟨halts, unchanged, -⟩ := scanInPlace_halts_iff sized default {} .builtin 2 1 .number
  obtain ⟨-, -, ends⟩ := scanInPlace_halts_iff sized default {} .builtin 0 3 .number
  obtain ⟨r, ended, -⟩ := ends none
  exact ⟨sized, misuse, (halts _).mpr ⟨_, misuse, rfl⟩, unchanged ⟨_, misuse⟩, r, ended⟩

end Document

end CssHighlight
