import TagLint.Proofs.ConfigOption
import TagLint.Proofs.ErrorSteps
import TagLint.Proofs.RuleIndependence
import TagLint.Proofs.SnippetText

/-!
# The exit status — what it tells about a check

A check runs through six steps: settings, named rules, source, events, validator, validation.

* `Finds`: all steps succeed, and this is what is found.
* `FirstFailure`: a step fails, and the ones before it succeed.
* `value_check_eq_ok_iff`, `value_check_eq_error_iff`: the outcome of a check is the one or the other.
* `ofMessage?_of_firstFailure`: the error that is printed tells which step it was.
* **`exit_status_truthful`**: what is printed, and the exit status, follow from that.
-/

namespace TagLint

/-- A step fails, or a later one does. -/
theorem bind_mapError_eq_error_iff {α β ε ε' : Type} {x : Except ε α} {k : ε → ε'} {f : α → Except ε' β} {e : ε'} :
    x.mapError k >>= f = .error e ↔ (∃ err, x = .error err ∧ k err = e) ∨ ∃ a, x = .ok a ∧ f a = .error e := by
  rw [bind_eq_error_iff, mapError_eq_error_iff]
  simp only [mapError_eq_ok_iff]

/-- The rules of a validator never break down. -/
theorem Validator.exists_validate_of_ofConfig {config : RuleConfig} {v : Validator} (h : ofConfig config = .ok v)
    (events : List Event) : ∃ findings, v.validate events = .ok findings :=
  ⟨_, validate_of_sound (fun _ hrule => (enabled_of_mem h hrule).sound) events⟩

namespace CommandLine

variable {fs : FileSystem} {env : Environment} {options : CheckOptions} {settings : Settings} {rules : RuleConfig}
  {d : Document} {findings : List Finding} {e : CheckError}

/-! ## The steps of a check -/

/-- The rules that a check sets: those of the file that is named, or those of the settings. -/
def Sets (fs : FileSystem) (options : CheckOptions) (settings : Settings) (rules : RuleConfig) : Prop :=
  match options.config with
  | none => rules = settings.rules
  | some p => ∃ text, fs.read p = .ok text ∧ RuleConfig.parse text = .ok rules

/-- Every step before the validation succeeds. -/
structure Loads (fs : FileSystem) (env : Environment) (options : CheckOptions) (settings : Settings)
    (rules : RuleConfig) (d : Document) : Prop where
  loaded : Settings.load fs env.userSettings? env.workingDir = .ok settings
  sets : Sets fs options settings rules
  document : ∃ text eventsText, fs.read (env.workingDir.join options.source) = .ok text ∧
    fs.read options.events = .ok eventsText ∧
    Document.ofEventsText (env.workingDir.join options.source) text eventsText = .ok d

/-- Every step succeeds, and this is what is found: nothing if the engine is off. -/
inductive Finds (fs : FileSystem) (env : Environment) (options : CheckOptions) (d : Document) : List Finding → Prop
  | disabled {settings : Settings} {rules : RuleConfig} (loads : Loads fs env options settings rules d)
      (h : settings.enabled = false) : Finds fs env options d []
  | checked {settings : Settings} {rules : RuleConfig} {v : Validator} {findings : List Finding}
      (loads : Loads fs env options settings rules d) (h : settings.enabled = true)
      (made : Validator.ofConfig (inForce fs env rules d.path) = .ok v) (run : v.validate d.events = .ok findings) :
      Finds fs env options d findings

/-- The first step that fails, after the ones before it have succeeded. -/
inductive FirstFailure (fs : FileSystem) (env : Environment) (options : CheckOptions) : CheckError → Prop
  | settings {e : SettingsError} (h : Settings.load fs env.userSettings? env.workingDir = .error e) :
      FirstFailure fs env options (.settings e)
  | readConfig {settings : Settings} {p : Path} {e : ReadError}
      (hsettings : Settings.load fs env.userSettings? env.workingDir = .ok settings)
      (hconfig : options.config = some p) (h : fs.read p = .error e) : FirstFailure fs env options (.readConfig p e)
  | parseConfig {settings : Settings} {p : Path} {text : String} {e : RuleConfig.ParseError}
      (hsettings : Settings.load fs env.userSettings? env.workingDir = .ok settings)
      (hconfig : options.config = some p) (hread : fs.read p = .ok text) (h : RuleConfig.parse text = .error e) :
      FirstFailure fs env options (.parseConfig p e)
  | readSource {settings : Settings} {rules : RuleConfig} {e : ReadError}
      (hsettings : Settings.load fs env.userSettings? env.workingDir = .ok settings)
      (hrules : Sets fs options settings rules) (h : fs.read (env.workingDir.join options.source) = .error e) :
      FirstFailure fs env options (.readSource (env.workingDir.join options.source) e)
  | readEvents {settings : Settings} {rules : RuleConfig} {text : String} {e : ReadError}
      (hsettings : Settings.load fs env.userSettings? env.workingDir = .ok settings)
      (hrules : Sets fs options settings rules) (hsource : fs.read (env.workingDir.join options.source) = .ok text)
      (h : fs.read options.events = .error e) : FirstFailure fs env options (.readEvents options.events e)
  | parseEvents {settings : Settings} {rules : RuleConfig} {text eventsText : String} {e : Json.Refusal}
      (hsettings : Settings.load fs env.userSettings? env.workingDir = .ok settings)
      (hrules : Sets fs options settings rules) (hsource : fs.read (env.workingDir.join options.source) = .ok text)
      (hread : fs.read options.events = .ok eventsText)
      (h : Document.ofEventsText (env.workingDir.join options.source) text eventsText = .error e) :
      FirstFailure fs env options (.parseEvents options.events e)
  | validate {settings : Settings} {rules : RuleConfig} {d : Document} {e : RuleError}
      (loads : Loads fs env options settings rules d) (henabled : settings.enabled = true)
      (h : Validator.ofConfig (inForce fs env rules d.path) = .error e) :
      FirstFailure fs env options (.validate d.path ⟨d.path, .config e⟩)

/-! ## The outcome of a check -/

/-- The settings of a check with what the session does. -/
def validated (fs : FileSystem) (env : Environment) (settings : Settings) (d : Document) :
    Except CheckError (Document × List Finding) :=
  if settings.enabled then outcomeOf (inForce fs env settings.rules d.path) d else .ok (d, [])

theorem value_check_eq (fs : FileSystem) (env : Environment) (options : CheckOptions) :
    (check fs env options).value =
      (settingsFor fs env options) >>= fun settings => documentFor fs env options >>= validated fs env settings := by
  unfold check
  cases hs : settingsFor fs env options with
  | error e => rfl
  | ok settings =>
    cases hd : documentFor fs env options with
    | error e => rfl
    | ok d =>
      show (((Session.new settings (some env.workingDir)).check fs d).value.1.map
        fun findings => (d, findings)).mapError (.validate d.path) = validated fs env settings d
      cases henabled : settings.enabled with
      | false =>
        have hengine : (Session.new settings (some env.workingDir)).engine = .disabled := by
          rw [Session.new, henabled]
          rfl
        rw [Session.check, hengine, validated, if_neg (Bool.eq_false_iff.mp henabled)]
        rfl
      | true =>
        rw [value_check_new fs henabled, value_run_standard, value_resolve_setEditorOverride, validated,
          if_pos henabled]

theorem settingsFor_eq_ok_iff {s : Settings} : settingsFor fs env options = .ok s ↔
    ∃ settings rules, Settings.load fs env.userSettings? env.workingDir = .ok settings ∧
      Sets fs options settings rules ∧ settings.withRules rules = s := by
  have same (settings : Settings) : settings.withRules settings.rules = settings := rfl
  unfold settingsFor Sets
  cases options.config with
  | none => simp [mapError_eq_ok_iff, same]
  | some p =>
    simp only [bind_eq_ok_iff, mapError_eq_ok_iff, pure_eq_ok_iff]
    constructor
    · rintro ⟨settings, hsettings, text, hread, rules, hparse, rfl⟩
      exact ⟨settings, rules, hsettings, ⟨text, hread, hparse⟩, rfl⟩
    · rintro ⟨settings, rules, hsettings, ⟨text, hread, hparse⟩, rfl⟩
      exact ⟨settings, hsettings, text, hread, rules, hparse, rfl⟩

theorem firstFailure_of_settingsFor (h : settingsFor fs env options = .error e) : FirstFailure fs env options e := by
  obtain ⟨err, failed, rfl⟩ | ⟨settings, hsettings, h⟩ := bind_mapError_eq_error_iff.mp h
  · exact .settings failed
  cases hconfig : options.config with
  | none => simp [hconfig, pure, Except.pure] at h
  | some p =>
    simp only [hconfig] at h
    obtain ⟨err, failed, rfl⟩ | ⟨text, hread, h⟩ := bind_mapError_eq_error_iff.mp h
    · exact .readConfig hsettings hconfig failed
    obtain ⟨err, failed, rfl⟩ | ⟨rules, -, h⟩ := bind_mapError_eq_error_iff.mp h
    · exact .parseConfig hsettings hconfig hread failed
    · cases h

theorem documentFor_eq_ok_iff : documentFor fs env options = .ok d ↔ ∃ text eventsText,
    fs.read (env.workingDir.join options.source) = .ok text ∧ fs.read options.events = .ok eventsText ∧
      Document.ofEventsText (env.workingDir.join options.source) text eventsText = .ok d := by
  simp only [documentFor, sourcePath, bind_eq_ok_iff, mapError_eq_ok_iff, exists_and_left]

/-- The session works with the rules that were set. -/
theorem exists_loads (hsettings : settingsFor fs env options = .ok settings)
    (hdoc : documentFor fs env options = .ok d) :
    ∃ loaded, Loads fs env options loaded settings.rules d ∧ loaded.enabled = settings.enabled := by
  obtain ⟨loaded, rules, hloaded, hsets, rfl⟩ := settingsFor_eq_ok_iff.mp hsettings
  exact ⟨loaded, ⟨hloaded, hsets, documentFor_eq_ok_iff.mp hdoc⟩, rfl⟩

theorem firstFailure_of_documentFor (hsettings : settingsFor fs env options = .ok settings)
    (h : documentFor fs env options = .error e) : FirstFailure fs env options e := by
  obtain ⟨loaded, rules, hloaded, hsets, -⟩ := settingsFor_eq_ok_iff.mp hsettings
  obtain ⟨err, failed, rfl⟩ | ⟨text, hsource, h⟩ := bind_mapError_eq_error_iff.mp h
  · exact .readSource hloaded hsets failed
  obtain ⟨err, failed, rfl⟩ | ⟨eventsText, hread, h⟩ := bind_mapError_eq_error_iff.mp h
  · exact .readEvents hloaded hsets hsource failed
  obtain ⟨err, failed, rfl⟩ := mapError_eq_error_iff.mp h
  exact .parseEvents hloaded hsets hsource hread failed

theorem outcomeOf_eq_ok_iff {config : RuleConfig} {d' : Document} : outcomeOf config d = .ok (d', findings) ↔
    d = d' ∧ ∃ v, Validator.ofConfig config = .ok v ∧ v.validate d.events = .ok findings := by
  unfold outcomeOf
  cases Validator.ofConfig config with
  | error err => simp
  | ok v => cases hrun : v.validate d.events <;> simp [hrun]

/-- Only the making of a validator fails. -/
theorem outcomeOf_eq_error_iff {config : RuleConfig} : outcomeOf config d = .error e ↔
    ∃ err, Validator.ofConfig config = .error err ∧ .validate d.path ⟨d.path, .config err⟩ = e := by
  unfold outcomeOf
  cases hmade : Validator.ofConfig config with
  | error err => simp
  | ok v =>
    obtain ⟨found, hrun⟩ := Validator.exists_validate_of_ofConfig hmade d.events
    simp [hrun]

/-- A check that comes to an end has found what there is to find. -/
theorem finds_of_value (h : (check fs env options).value = .ok (d, findings)) : Finds fs env options d findings := by
  rw [value_check_eq, bind_eq_ok_iff] at h
  obtain ⟨settings, hsettings, h⟩ := h
  obtain ⟨d', hdoc, h⟩ := bind_eq_ok_iff.mp h
  obtain ⟨loaded, loads, henabled⟩ := exists_loads hsettings hdoc
  rw [validated] at h
  split_ifs at h with enabled
  · obtain ⟨rfl, v, made, run⟩ := outcomeOf_eq_ok_iff.mp h
    exact .checked loads (henabled.trans enabled) made run
  · obtain ⟨rfl, rfl⟩ := Prod.mk.inj (Except.ok.inj h)
    exact .disabled loads (henabled.trans (Bool.eq_false_iff.mpr enabled))

/-- A check that fails has failed at its first failing step. -/
theorem firstFailure_of_value (h : (check fs env options).value = .error e) : FirstFailure fs env options e := by
  rw [value_check_eq, bind_eq_error_iff] at h
  obtain h | ⟨settings, hsettings, h⟩ := h
  · exact firstFailure_of_settingsFor h
  obtain h | ⟨d, hdoc, h⟩ := bind_eq_error_iff.mp h
  · exact firstFailure_of_documentFor hsettings h
  obtain ⟨loaded, loads, henabled⟩ := exists_loads hsettings hdoc
  rw [validated] at h
  split_ifs at h with enabled
  obtain ⟨err, made, rfl⟩ := outcomeOf_eq_error_iff.mp h
  exact .validate loads (henabled.trans enabled) made

theorem Loads.settingsFor_eq (loads : Loads fs env options settings rules d) :
    settingsFor fs env options = .ok (settings.withRules rules) :=
  settingsFor_eq_ok_iff.mpr ⟨settings, rules, loads.loaded, loads.sets, rfl⟩

theorem Loads.value_check_eq (loads : Loads fs env options settings rules d) :
    (check fs env options).value =
      if settings.enabled then outcomeOf (inForce fs env rules d.path) d else .ok (d, []) := by
  rw [CommandLine.value_check_eq, loads.settingsFor_eq, documentFor_eq_ok_iff.mpr loads.document]
  rfl

theorem value_check_of_finds (h : Finds fs env options d findings) :
    (check fs env options).value = .ok (d, findings) := by
  cases h with
  | disabled loads h => simp [loads.value_check_eq, h]
  | checked loads h made run =>
    rw [loads.value_check_eq, if_pos h]
    exact outcomeOf_eq_ok_iff.mpr ⟨rfl, _, made, run⟩

theorem value_check_of_firstFailure (h : FirstFailure fs env options e) :
    (check fs env options).value = .error e := by
  cases h with
  | settings h => simp [value_check_eq, settingsFor, h, Except.mapError, bind, Except.bind]
  | readConfig hs hc h => simp [value_check_eq, settingsFor, hs, hc, h, Except.mapError, bind, Except.bind]
  | parseConfig hs hc hr h => simp [value_check_eq, settingsFor, hs, hc, hr, h, Except.mapError, bind, Except.bind]
  | readSource hs hr h =>
    rw [value_check_eq, settingsFor_eq_ok_iff.mpr ⟨_, _, hs, hr, rfl⟩]
    simp [documentFor, sourcePath, h, Except.mapError, bind, Except.bind]
  | readEvents hs hr ht h =>
    rw [value_check_eq, settingsFor_eq_ok_iff.mpr ⟨_, _, hs, hr, rfl⟩]
    simp [documentFor, sourcePath, h, ht, Except.mapError, bind, Except.bind]
  | parseEvents hs hr ht he h =>
    rw [value_check_eq, settingsFor_eq_ok_iff.mpr ⟨_, _, hs, hr, rfl⟩]
    simp [documentFor, sourcePath, h, ht, he, Except.mapError, bind, Except.bind]
  | validate loads henabled h =>
    rw [loads.value_check_eq, if_pos henabled]
    exact outcomeOf_eq_error_iff.mpr ⟨_, h, rfl⟩

theorem value_check_eq_ok_iff : (check fs env options).value = .ok (d, findings) ↔ Finds fs env options d findings :=
  ⟨finds_of_value, value_check_of_finds⟩

theorem value_check_eq_error_iff : (check fs env options).value = .error e ↔ FirstFailure fs env options e :=
  ⟨firstFailure_of_value, value_check_of_firstFailure⟩

/-! ## The exit status -/

theorem code_transcriptOf (style : Report.Style) (invocation : Invocation)
    (result : Except CheckError (Document × List Finding)) :
    (transcriptOf style invocation result).code = 0 ∨ (transcriptOf style invocation result).code = 1 := by
  match result with
  | .error e => exact .inr rfl
  | .ok (d, []) => exact .inl rfl
  | .ok (d, f :: fs) => exact .inr rfl

theorem code_transcriptOf_eq_zero_iff {style : Report.Style} {invocation : Invocation}
    {result : Except CheckError (Document × List Finding)} :
    (transcriptOf style invocation result).code = 0 ↔ ∃ d, result = .ok (d, []) := by
  match result with
  | .error e => simp [transcriptOf]
  | .ok (d, []) => simp [transcriptOf]
  | .ok (d, f :: fs) => simp [transcriptOf]

/-- From an absolute directory an error tells which step failed first. -/
theorem ofMessage?_of_firstFailure (hdir : env.workingDir.isAbsolute) (h : FirstFailure fs env options e) :
    Step.ofMessage? e.message = some e.step := by
  refine CheckError.ofMessage?_message fun p hp hstep => ?_
  cases h with
  | readSource =>
    obtain rfl := Option.some.inj hp
    exact Path.isAbsolute_join hdir _
  | _ => cases hstep

/-- **The exit status tells the truth.**  A check exits with 0 if all steps succeed and nothing is found, and with 1
otherwise.  If something is found, standard error ends with how much, and standard output has a block for each finding
in order, which shows the finding, unless the check is to be quiet; if a step fails, standard output is empty and the
error is that of the first step that fails, which it names with the file and what went wrong.  One of these is always the
case. -/
theorem exit_status_truthful (style : Report.Style) (fs : FileSystem) (env : Environment) (args : List String)
    (invocation : Invocation) (h : parse args = .ok invocation) :
    let options := invocation.check
    let done := run style fs env args
    let log := logLines invocation.flags.level (check fs env options).log
    (done.code = 0 ∨ done.code = 1) ∧ (done.code = 0 ↔ ∃ d, Finds fs env options d []) ∧
    (∀ d findings, Finds fs env options d findings → findings ≠ [] →
      done.stderr = log ++ ("Found " ++ toString findings.length ++
        (if findings.length = 1 then " error." else " errors.") ++ "\n") ∧
      (done.stdout = if invocation.flags.quiet then ""
        else String.join (findings.map fun f => Report.render style d.text options.source.text f ++ "\n\n")) ∧
      ∀ f ∈ findings, Report.Shows style d.text options.source.text f
        (Report.render style d.text options.source.text f)) ∧
    (∀ e, FirstFailure fs env options e → done.stdout = "" ∧ done.stderr = log ++ ("Error: " ++ e.message ++ "\n") ∧
      (∃ behind, e.message =
        e.step.words ++ (e.subject?.map (·.text)).getD "" ++ ": " ++ e.cause ++ behind) ∧
      (env.workingDir.isAbsolute → Step.ofMessage? e.message = some e.step)) ∧
    ((∃ d findings, Finds fs env options d findings) ∨ ∃ e, FirstFailure fs env options e) := by
  intro options done log
  obtain ⟨hcode, hstdout, hstderr⟩ : done.code = (transcriptOf style invocation (check fs env options).value).code ∧
      done.stdout = (transcriptOf style invocation (check fs env options).value).stdout ∧
      done.stderr = log ++ (transcriptOf style invocation (check fs env options).value).stderr := by
    simp only [done, run, h]
    exact ⟨rfl, rfl, rfl⟩
  rw [hcode, hstdout, hstderr]
  refine ⟨code_transcriptOf _ _ _, ?_, fun d findings hfinds hfindings => ?_, fun e hfailure => ?_, ?_⟩
  · simp only [← value_check_eq_ok_iff]
    exact code_transcriptOf_eq_zero_iff
  · obtain ⟨f, fs, rfl⟩ := List.exists_cons_of_ne_nil hfindings
    rw [value_check_eq_ok_iff.mpr hfinds]
    exact ⟨rfl, rfl, fun f _ => Report.render_shows style d.text options.source.text f⟩
  · rw [value_check_eq_error_iff.mpr hfailure]
    exact ⟨rfl, rfl, e.message_eq, fun hdir => ofMessage?_of_firstFailure hdir hfailure⟩
  · cases hvalue : (check fs env options).value with
    | error e => exact .inr ⟨e, value_check_eq_error_iff.mp hvalue⟩
    | ok found => exact .inl ⟨found.1, found.2, value_check_eq_ok_iff.mp hvalue⟩

/-- What is printed about the image of the page. -/
def pageBlocks : String :=
  "error[tags-check]: The <img> tag must have attr 'src'.\n --> page.isml:1:1\n  |\n1 | <img>\n  | ^^^^^\n\n" ++
    "error[tags-check]: The <img> tag must have attr 'alt'.\n --> page.isml:1:1\n  |\n1 | <img>\n  | ^^^^^\n\n"

/-- The page is clean without the tag rule, and is not with it; rules that are a list fail the check. -/
theorem exit_status_truthful_page :
    let args := ["check", "--config", "rules.json", "page.isml", "--events", "page.json"]
    let ran (rules : String) := run .plain (pageTree rules none) pageEnvironment args
    parse args = .ok pageCheck ∧
    (∃ d, Finds (pageTree "\x7b\"tags-check\": false\x7d" none) pageEnvironment pageCheck.check d []) ∧
    (∃ d findings, Finds (pageTree "\x7b\x7d" none) pageEnvironment pageCheck.check d findings ∧ findings ≠ [] ∧
      ran "\x7b\x7d" = ⟨1, pageBlocks, "Found 2 errors.\n"⟩ ∧
      ∀ f ∈ findings, Report.Shows .plain d.text "page.isml" f (Report.render .plain d.text "page.isml" f)) ∧
    ∃ e, FirstFailure (pageTree "[]" none) pageEnvironment pageCheck.check e ∧ (ran "[]").stdout = "" ∧
      (∃ behind, e.message = "Failed to parse rule config " ++ "rules.json" ++ ": " ++ e.cause ++ behind) ∧
      Step.ofMessage? e.message = some .parseConfig := by
  intro args ran
  have hparse : parse args = .ok pageCheck := by decide +kernel
  have truthful (fs : FileSystem) := exit_status_truthful .plain fs pageEnvironment args _ hparse
  refine ⟨hparse, ?_, ?_, ?_⟩
  · exact (truthful _).2.1.mp (by decide +kernel)
  · have hran : ran "\x7b\x7d" = ⟨1, pageBlocks, "Found 2 errors.\n"⟩ := by decide +kernel
    obtain ⟨-, hzero, hfound, hfailed, ⟨d, findings, finds⟩ | ⟨e, failure⟩⟩ := truthful (pageTree "\x7b\x7d" none)
    · have hne : findings ≠ [] := by
        rintro rfl
        have hclean : (ran "\x7b\x7d").code = 0 := hzero.mpr ⟨d, finds⟩
        rw [hran] at hclean
        cases hclean
      exact ⟨d, findings, finds, hne, hran, (hfound d findings finds hne).2.2⟩
    · have hempty : (ran "\x7b\x7d").stdout = "" := (hfailed e failure).1
      rw [hran] at hempty
      exact absurd hempty (by decide)
  · obtain ⟨settings, hsettings, -⟩ :
        ∃ s, Settings.load (pageTree "[]" none) pageEnvironment.userSettings? pageEnvironment.workingDir = .ok s ∧
          true :=
      exists_eq_ok_of_all (by decide +kernel)
    have hread : (pageTree "[]" none).read ⟨"rules.json"⟩ = .ok "[]" := by decide +kernel
    have hlist : (RuleConfig.parse "[]").toOption.isNone := by decide +kernel
    cases hrules : RuleConfig.parse "[]" with
    | ok rules => simp [hrules, Except.toOption] at hlist
    | error e =>
      have failure : FirstFailure (pageTree "[]" none) pageEnvironment pageCheck.check _ :=
        .parseConfig hsettings rfl hread hrules
      obtain ⟨hstdout, -, hmessage, hstep⟩ := (truthful _).2.2.2.1 _ failure
      exact ⟨_, failure, hstdout, hmessage, hstep (by decide)⟩

end CommandLine

end TagLint
