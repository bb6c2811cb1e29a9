import Mathlib.Data.List.Find
import TagLint.CommandLine.Transcript
import TagLint.Files.Tree
import TagLint.Proofs.CascadeView

/-!
# Rules named on the command line

A check whose options name rules takes them for the rules of the editor.

* `value_check_of_config`: the check finds what these rules, laid over the defaults, find, unless there are none;
  then the rules are looked for in rule files.
* `check_congr`: with some rules, the check depends on no file but the ones that it names and the settings.
* `config_replaces_rule_files`: both together, for what is printed and for the exit code.
-/

namespace TagLint

namespace CommandLine

open Settings

variable {fs fs' : FileSystem} {env : Environment} {options : CheckOptions} {settings : Settings} {p : Path}
  {text : String} {rules : RuleConfig} {d : Document}

/-- What the rules of a configuration make of a document. -/
def outcomeOf (config : RuleConfig) (d : Document) : Except CheckError (Document × List Finding) :=
  match Validator.ofConfig config with
  | .error e => .error (.validate d.path ⟨d.path, .config e⟩)
  | .ok v =>
    match v.validate d.events with
    | .error crash => .error (.validate d.path ⟨d.path, .crash crash⟩)
    | .ok findings => .ok (d, findings)

theorem value_run_standard (config : RuleConfig) (d : Document) :
    ((Session.run .standard config d).value.map fun findings => (d, findings)).mapError (.validate d.path) =
      outcomeOf config d := by
  have hmade : (ValidatorMaker.standard config).value = (Validator.ofConfig config).mapError .config := rfl
  rw [Session.run, Logged.value_bind, hmade, outcomeOf]
  cases Validator.ofConfig config with
  | error e => rfl
  | ok v =>
    simp only [Except.mapError, Except.bind]
    cases v.validate d.events <;> rfl

/-- The settings of a check whose options name rules. -/
theorem settingsFor_of_config (hsettings : Settings.load fs env.userSettings? env.workingDir = .ok settings)
    (hconfig : options.config = some p) (hread : fs.read p = .ok text) (hparse : RuleConfig.parse text = .ok rules) :
    settingsFor fs env options = .ok (settings.withRules rules) := by
  simp [settingsFor, hsettings, hconfig, hread, hparse, Except.mapError, bind, Except.bind, pure, Except.pure]

/-- The rules in force for a path when the options name `rules`: these, or if there are none those of rule files. -/
def inForce (fs : FileSystem) (env : Environment) (rules : RuleConfig) (p : Path) : RuleConfig :=
  if rules.isEmpty then ((Cascade.new (some env.workingDir)).resolve fs p).value.1
  else RuleConfig.defaults.overlay rules

theorem value_resolve_setEditorOverride (rules : RuleConfig) (p : Path) :
    (((Cascade.new (some env.workingDir)).setEditorOverride rules).resolve fs p).value.1 = inForce fs env rules p := by
  rw [inForce]
  split_ifs with hempty
  · rw [SortedMap.eq_empty_of_isEmpty hempty]
    rfl
  · have hkeep : ((Cascade.new (some env.workingDir)).setEditorOverride rules).editorOverride = rules := rfl
    rw [Cascade.resolve, hkeep, if_neg hempty]
    rfl

theorem value_check_new (fs : FileSystem) {settings : Settings} (henabled : settings.enabled)
    (workingDir : Option Path) (d : Document) :
    ((Session.new settings workingDir).check fs d).value.1 =
      (Session.run .standard
        (((Cascade.new workingDir).setEditorOverride settings.rules).resolve fs d.path).value.1 d).value := by
  have hengine : (Session.new settings workingDir).engine = .enabled := by
    rw [Session.new, henabled]
    rfl
  rw [Session.check, hengine]
  rfl

/-- A check whose options name rules. -/
theorem value_check_of_config (hsettings : Settings.load fs env.userSettings? env.workingDir = .ok settings)
    (henabled : settings.enabled) (hconfig : options.config = some p) (hread : fs.read p = .ok text)
    (hparse : RuleConfig.parse text = .ok rules) (hdoc : documentFor fs env options = .ok d) :
    (check fs env options).value = outcomeOf (inForce fs env rules d.path) d := by
  have hfor := settingsFor_of_config hsettings hconfig hread hparse
  have hprepared : (check fs env options).value =
      (((Session.new (settings.withRules rules) (some env.workingDir)).check fs d).value.1.map
        fun findings => (d, findings)).mapError (.validate d.path) := by
    simp only [check, hfor, hdoc]
    rfl
  have hnew := value_check_new fs (show (settings.withRules rules).enabled from henabled) (some env.workingDir) d
  rw [hprepared, hnew, ← value_run_standard, ← value_resolve_setEditorOverride]
  rfl

/-! ## What a check depends on -/

/-- The files that a check names, and those of the settings. -/
def namedFiles (env : Environment) (options : CheckOptions) : List Path :=
  (env.userSettings?.toList ++ projectFiles env.workingDir).flatMap spellings ++ options.config.toList
    ++ [sourcePath env options, options.events]

theorem readFile?_congr {base q : Path} (h : ∀ r ∈ spellings q, fs'.read r = fs.read r) :
    readFile? fs' base q = readFile? fs base q := by
  have hplace : place? fs' q = place? fs q := List.find?_congr fun r hr => by
    rw [FileSystem.hasFile, FileSystem.hasFile, h r hr]
  rw [readFile?, readFile?, hplace]
  cases hp : place? fs q with
  | none => rfl
  | some r =>
    have hread : fs'.textOf? r = fs.textOf? r := by
      rw [FileSystem.textOf?, FileSystem.textOf?, h r (List.mem_of_find?_eq_some hp)]
    rw [Option.bind_eq_bind, Option.bind_some, Option.bind_some, hread]

theorem load_congr {user? : Option Path} {root : Path}
    (h : ∀ q ∈ user?.toList ++ projectFiles root, ∀ r ∈ spellings q, fs'.read r = fs.read r) :
    load fs' user? root = load fs user? root := by
  rw [load, load, List.filterMap_congr fun q hq => readFile?_congr (h q hq)]

theorem settingsFor_congr (h : ∀ q ∈ namedFiles env options, fs'.read q = fs.read q) :
    settingsFor fs' env options = settingsFor fs env options := by
  have hload : load fs' env.userSettings? env.workingDir = load fs env.userSettings? env.workingDir :=
    load_congr fun q hq r hr => h r (by
      simp only [namedFiles, List.mem_append, List.mem_flatMap]
      exact .inl (.inl ⟨q, List.mem_append.mp hq, hr⟩))
  rw [settingsFor, settingsFor, hload]
  cases hconfig : options.config with
  | none => rfl
  | some p =>
    have hread : fs'.read p = fs.read p := h p (by simp [namedFiles, hconfig])
    simp only [hread]

theorem documentFor_congr (h : ∀ q ∈ namedFiles env options, fs'.read q = fs.read q) :
    documentFor fs' env options = documentFor fs env options := by
  have hsource : fs'.read (sourcePath env options) = fs.read (sourcePath env options) := h _ (by simp [namedFiles])
  have hevents : fs'.read options.events = fs.read options.events := h _ (by simp [namedFiles])
  simp only [documentFor, hsource, hevents]

/-- Under rules of the editor no file is read. -/
theorem check_congr_of_override {s : Session} (h : ¬ s.cascade.editorOverride.isEmpty) (d : Document) :
    s.check fs' d = s.check fs d := by
  have hresolve : s.cascade.resolve fs' d.path = s.cascade.resolve fs d.path := by
    rw [Cascade.resolve, Cascade.resolve, if_neg h, if_neg h]
  simp only [Session.check, Session.resolve, hresolve]

/-- With some rules named, a check depends on no file but those that it names and the settings. -/
theorem check_congr (hsettings : Settings.load fs env.userSettings? env.workingDir = .ok settings)
    (hconfig : options.config = some p) (hread : fs.read p = .ok text)
    (hparse : RuleConfig.parse text = .ok rules) (hrules : ¬ rules.isEmpty)
    (h : ∀ q ∈ namedFiles env options, fs'.read q = fs.read q) : check fs' env options = check fs env options := by
  have hfor := settingsFor_of_config hsettings hconfig hread hparse
  have hoverride : ¬ (Session.new (settings.withRules rules) (some env.workingDir)).cascade.editorOverride.isEmpty :=
    hrules
  simp only [check, settingsFor_congr h, documentFor_congr h, hfor]
  cases hdoc : documentFor fs env options with
  | error e => rfl
  | ok d => exact congrArg (· >>= _) (check_congr_of_override hoverride d)

/-- **Rules on the command line.**  When the settings load with the engine on and the named files can be read, a check
with rules named finds what these rules, laid over the defaults, find, its exit code tells whether that is nothing, and
no other file counts, in particular no rule file.  If no rule is named, the rules are those of rule files. -/
theorem config_replaces_rule_files {style : Report.Style} {flags : Flags}
    (hsettings : Settings.load fs env.userSettings? env.workingDir = .ok settings) (henabled : settings.enabled)
    (hconfig : options.config = some p) (hread : fs.read p = .ok text) (hparse : RuleConfig.parse text = .ok rules)
    (hdoc : documentFor fs env options = .ok d) :
    (check fs env options).value = outcomeOf (if rules.isEmpty
      then ((Cascade.new (some env.workingDir)).resolve fs d.path).value.1
      else RuleConfig.defaults.overlay rules) d ∧
    ((runCheck style fs env ⟨options, flags⟩).code = 0 ↔ (check fs env options).value = .ok (d, [])) ∧
    (¬ rules.isEmpty → ∀ fs' : FileSystem, (∀ q ∈ namedFiles env options, fs'.read q = fs.read q) →
      runCheck style fs' env ⟨options, flags⟩ = runCheck style fs env ⟨options, flags⟩) := by
  have hvalue := value_check_of_config hsettings henabled hconfig hread hparse hdoc
  refine ⟨hvalue, ?_, fun hrules fs' h => ?_⟩
  · show (transcriptOf style ⟨options, flags⟩ (check fs env options).value).code = 0 ↔ _
    rw [hvalue, outcomeOf]
    cases Validator.ofConfig (inForce fs env rules d.path) with
    | error e => simp [transcriptOf]
    | ok v =>
      dsimp only
      cases v.validate d.events with
      | error crash => simp [transcriptOf]
      | ok findings => cases findings <;> simp [transcriptOf]
  · rw [runCheck, runCheck, check_congr hsettings hconfig hread hparse hrules h]

/-- A page with an image that lacks an attribute, its events, rules to be named, and perhaps a rule file. -/
def pageTree (rules : String) (ruleFile? : Option String) : FileSystem :=
  let events := "[\x7b\"kind\": \"tag-start\", \"tag_name\": \"img\", \"line\": 1, \"col\": 1, \"raw\": \"<img>\"\x7d]"
  let tree := (((DirectoryTree.new ["w"]).addFile ⟨"page.isml"⟩ "<img>").addFile ⟨"page.json"⟩ events).addFile
    ⟨"rules.json"⟩ rules
  match ruleFile? with
  | some ruleFile => (tree.addFile ⟨ruleFileName⟩ ruleFile).fileSystem
  | none => tree.fileSystem

def pageEnvironment : Environment := ⟨⟨"/w"⟩, none⟩

def pageCheck : Invocation := ⟨⟨⟨"page.isml"⟩, ⟨"page.json"⟩, some ⟨"rules.json"⟩⟩, {}⟩

theorem exists_eq_ok_of_all {ε α : Type} {x : Except ε α} {q : α → Bool} (h : x.toOption.any q) :
    ∃ a, x = .ok a ∧ q a := by
  cases x with
  | error e => cases h
  | ok a => exact ⟨a, rfl, h⟩

theorem config_replaces_rule_files_page :
    let named := pageTree "\x7b\"tags-check\": false\x7d"
    (runCheck .plain (named none) pageEnvironment pageCheck).code = 0 ∧
    runCheck .plain (named (some "\x7b\"max-length\": 0\x7d")) pageEnvironment pageCheck =
      runCheck .plain (named none) pageEnvironment pageCheck := by
  intro named
  obtain ⟨settings, hsettings, henabled⟩ :
      ∃ s, load (named none) pageEnvironment.userSettings? pageEnvironment.workingDir = .ok s ∧ s.enabled :=
    exists_eq_ok_of_all (by decide +kernel)
  obtain ⟨text, hread, hparsed⟩ : ∃ t, (named none).read ⟨"rules.json"⟩ = .ok t ∧
      (RuleConfig.parse t).toOption.any fun rules => !rules.isEmpty := exists_eq_ok_of_all (by decide +kernel)
  obtain ⟨rules, hparse, hrules⟩ := exists_eq_ok_of_all hparsed
  obtain ⟨d, hdoc, -⟩ : ∃ d, documentFor (named none) pageEnvironment pageCheck.check = .ok d ∧ true :=
    exists_eq_ok_of_all (by decide +kernel)
  obtain ⟨hvalue, hcode, hsame⟩ := config_replaces_rule_files hsettings henabled rfl hread hparse hdoc
  have hfiles : ∀ q ∈ namedFiles pageEnvironment pageCheck.check,
      (named (some "\x7b\"max-length\": 0\x7d")).read q = (named none).read q := by decide +kernel
  exact ⟨by decide +kernel, hsame (by simpa using hrules) _ hfiles⟩

/-- With an empty set of rules named, a rule file decides what is found. -/
theorem empty_rules_leave_rule_files_in_force :
    let named := pageTree "\x7b\x7d"
    (named none).read ⟨"rules.json"⟩ = .ok "\x7b\x7d" ∧
    (RuleConfig.parse "\x7b\x7d").toOption.any (·.isEmpty) ∧
    (load (named none) pageEnvironment.userSettings? pageEnvironment.workingDir).toOption.any (·.enabled) ∧
    (∀ q ∈ namedFiles pageEnvironment pageCheck.check,
      (named (some "\x7b\"tags-check\": false\x7d")).read q = (named none).read q) ∧
    (runCheck .plain (named none) pageEnvironment pageCheck).code = 1 ∧
    (runCheck .plain (named (some "\x7b\"tags-check\": false\x7d")) pageEnvironment pageCheck).code = 0 := by
  decide +kernel

end CommandLine

end TagLint
