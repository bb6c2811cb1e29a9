import TagLint.Proofs.OpenRevalidation

/-!
# Surfaced failures — what is shown as an error while a batch is validated

An operation is quiet when nothing of its log is shown as an error.

* Looking for rules is quiet, whatever stands in the rule files (`Cascade.quiet_resolve`), and so is the standard maker
  (`ValidatorMaker.quiet_standard`).
* Under a quiet maker a document shows its failure if it fails, and nothing else (`errorMessages_validate`); the
  documents of a batch show theirs one after the other (`errorMessages_validateEach`).

**`failures_surfaced_once`** adds the message on the whole batch.
-/

namespace TagLint

variable {α β : Type}

/-! ## Quiet operations -/

theorem errorMessages_append (log later : List LogEntry) :
    errorMessages (log ++ later) = errorMessages log ++ errorMessages later := by
  rw [errorMessages, forwarded, List.filterMap_append, List.filterMap_append]
  rfl

namespace Logged

/-- Nothing is shown as an error. -/
def Quiet (x : Logged α) : Prop := errorMessages x.log = []

theorem quiet_pure (a : α) : (pure a : Logged α).Quiet := rfl

theorem quiet_say {level : LogLevel} (h : level ≠ .error) (message : String) : (say level message).Quiet := by
  cases level with
  | error => exact absurd rfl h
  | warn | info | debug | trace => rfl

theorem Quiet.bind {x : Logged α} {f : α → Logged β} (hx : x.Quiet) (hf : (f x.value).Quiet) : (x >>= f).Quiet := by
  rw [Quiet, log_bind, errorMessages_append, hx, hf, List.append_nil]

/-- A message of a lower level beside a value. -/
theorem quiet_note {level : LogLevel} (h : level ≠ .error) (message : String) (a : α) :
    (do say level message; return a : Logged α).Quiet :=
  (quiet_say h message).bind (quiet_pure a)

/-- After a quiet operation only the rest is shown. -/
theorem errorMessages_bind {x : Logged α} (hx : x.Quiet) (f : α → Logged β) :
    errorMessages (x >>= f).log = errorMessages (f x.value).log := by
  rw [log_bind, errorMessages_append, hx, List.nil_append]

theorem quiet_of_level {x : Logged α} (h : ∀ e ∈ x.log, e.level ≠ .error) : x.Quiet := by
  rw [Quiet]
  generalize x.log = log at h
  induction log with
  | nil => rfl
  | cons e log ih =>
    have hhead : errorMessages [e] = [] := quiet_say (h e List.mem_cons_self) e.message
    rw [← List.singleton_append, errorMessages_append, hhead, List.nil_append]
    exact ih fun e' he' => h e' (List.mem_cons_of_mem e he')

end Logged

open Logged (Quiet)

namespace Cascade

theorem quiet_readRuleFile (fs : FileSystem) (c : Cascade) (dir : Path) : (c.readRuleFile fs dir).Quiet := by
  rw [readRuleFile]
  rcases fs.read (ruleFile dir) with e | text
  · exact Logged.quiet_pure _
  · dsimp only
    rcases RuleConfig.parse text with e | config
    · exact Logged.quiet_note (by decide) _ _
    · exact Logged.quiet_note (by decide) _ _

theorem quiet_lookUp (fs : FileSystem) (c : Cascade) (dir : Path) : (c.lookUp fs dir).Quiet := by
  rw [lookUp]
  rcases c.entry dir with _ | _ | config
  · exact (quiet_readRuleFile fs c dir).bind (Logged.quiet_pure _)
  · exact Logged.quiet_note (by decide) _ _
  · exact Logged.quiet_note (by decide) _ _

theorem quiet_findIn (fs : FileSystem) (c : Cascade) (dirs : List Path) : (c.findIn fs dirs).Quiet := by
  induction dirs generalizing c with
  | nil => exact Logged.quiet_pure _
  | cons dir dirs ih =>
    apply (quiet_lookUp fs c dir).bind
    rcases (c.lookUp fs dir).value with ⟨_ | _ | config, after⟩
    · exact ih after
    · exact ih after
    · exact Logged.quiet_pure _

theorem quiet_resolve (fs : FileSystem) (c : Cascade) (p : Path) : (c.resolve fs p).Quiet := by
  rw [resolve]
  split
  · have hsearch : (c.findOverride fs p).Quiet := quiet_findIn fs c (c.candidates fs p)
    apply hsearch.bind
    rcases (c.findOverride fs p).value with ⟨_ | found, after⟩
    · exact Logged.quiet_pure _
    · exact Logged.quiet_pure _
  · exact Logged.quiet_note (by decide) _ _

end Cascade

namespace Validator

variable {config : RuleConfig} {e : LogEntry}

theorem level_of_mem_overrideLog (he : e ∈ overrideLog config) : e.level = .debug := by
  rw [overrideLog] at he
  split at he
  · rw [List.mem_singleton.mp he]
  · cases he

theorem level_of_mem_noLimitLog (he : e ∈ noLimitLog config) : e.level = .debug := by
  rw [noLimitLog] at he
  split at he
  · rw [List.mem_singleton.mp he]
  · cases he

/-- Whatever is said while a validator is built is for debugging. -/
theorem level_of_mem_build (he : e ∈ (build config).log) : e.level = .debug := by
  -- unknown rules, notes on the tag check, and what is said at the end
  rcases List.mem_append.mp he with he | hend
  · rcases List.mem_append.mp he with hunknown | htags
    · obtain ⟨m, -, rfl⟩ := List.mem_map.mp hunknown
      rfl
    · split at htags
      · exact (List.mem_append.mp htags).elim level_of_mem_overrideLog level_of_mem_noLimitLog
      · cases htags
  · split at hend
    · rw [List.mem_singleton.mp hend]
    · cases hend

theorem quiet_build (config : RuleConfig) : (build config).Quiet := by
  apply Logged.quiet_of_level
  intro e he
  rw [level_of_mem_build he]
  exact nofun

end Validator

/-- The maker shows no errors of its own. -/
def ValidatorMaker.Quiet (maker : ValidatorMaker) : Prop := ∀ config, (maker config).Quiet

theorem ValidatorMaker.quiet_standard : standard.Quiet := fun config =>
  (Validator.quiet_build config).bind (Logged.quiet_pure _)

/-! ## Failures -/

namespace Failure

/-- A text names the path of the failure. -/
def Names (f : Failure) (text : String) : Prop := f.path.text.toList <:+: text.toList

theorem names_message_silent (p : Path) : Names ⟨p, .crash .silent⟩ (message ⟨p, .crash .silent⟩) := by
  show p.text.toList <:+: ("unknown error occurred while validating file: " ++ p.text).toList
  rw [String.toList_append]
  exact (List.suffix_append _ _).isInfix

/-- A crash is reported under the path of the document. -/
theorem names_report_crash (p : Path) (crash : Crash) : Names ⟨p, .crash crash⟩ (report ⟨p, .crash crash⟩) := by
  show p.text.toList <:+: ("Validation of " ++ p.text ++ " panicked: " ++ message ⟨p, .crash crash⟩).toList
  rw [String.toList_append, String.toList_append, String.toList_append, List.append_assoc _ " panicked: ".toList]
  exact ⟨_, _, rfl⟩

end Failure

namespace BatchReport

/-- The message on a report states how many failures there are and holds their texts in order. -/
theorem errorMessage?_eq_some {r : BatchReport} {message : String} (h : r.errorMessage? = some message) :
    message.toList = ("Failed to validate " ++ toString r.failures.length ++
      if r.failures.length = 1 then " file:" else " files:").toList ++
        r.failures.flatMap fun f => "\n- ".toList ++ f.message.toList := by
  rw [errorMessage?] at h
  split at h
  · cases h
  · obtain rfl := Option.some.inj h
    rw [String.toList_append, String.toList_join, List.flatMap_map]
    congr 1
    · split <;> simp
    · simp only [String.toList_append]

end BatchReport

/-! ## Documents -/

namespace Session

variable {fs : FileSystem}

/-- What comes of a document under a configuration, or why nothing does. -/
def attempt (maker : ValidatorMaker) (config : RuleConfig) (d : Document) : Except Breakdown (List Finding) :=
  (maker config).value.bind fun v => (v.validate d.events).mapError .crash

/-- A breakdown becomes the failure of the document. -/
theorem value_run (maker : ValidatorMaker) (config : RuleConfig) (d : Document) :
    (run maker config d).value = (attempt maker config d).mapError fun cause => ⟨d.path, cause⟩ := by
  rw [run, Logged.value_bind, ← attempt]
  rcases attempt maker config d with cause | findings
  · rfl
  · rfl

theorem errorMessages_run {maker : ValidatorMaker} (hmaker : maker.Quiet) (config : RuleConfig) (d : Document) :
    errorMessages (run maker config d).log = match attempt maker config d with
      | .ok _ => []
      | .error cause => [Failure.report ⟨d.path, cause⟩] := by
  rw [run, Logged.errorMessages_bind (hmaker config), ← attempt]
  rcases attempt maker config d with cause | findings
  · rfl
  · rfl

theorem quiet_resolve (fs : FileSystem) (s : Session) (p : Path) : (s.resolve fs p).Quiet :=
  (Cascade.quiet_resolve fs s.cascade p).bind (Logged.quiet_pure _)

/-- A document that fails shows its failure; nothing else is shown. -/
theorem errorMessages_validate {s : Session} (hmaker : s.maker.Quiet) (d : Document) :
    errorMessages (s.validate fs d).log =
      (Outcome.failure? ⟨d, (s.validate fs d).value.1⟩).toList.map Failure.report := by
  rw [value_validate, validate, Logged.log_bind, errorMessages_append, check]
  cases s.engine with
  | disabled => rfl
  | enabled =>
    dsimp only
    rw [Logged.errorMessages_bind (quiet_resolve fs s d.path), value_resolve]
    dsimp only
    rw [Logged.log_bind, errorMessages_append, errorMessages_run hmaker, value_run]
    rcases attempt s.maker _ d with cause | findings
    · rfl
    · rfl

/-! ## Batches -/

/-- Validating changes what is known about rule files and nothing else. -/
theorem exists_validate_eq (fs : FileSystem) (s : Session) (d : Document) :
    ∃ cascade, (s.validate fs d).value.2 = { s with cascade } := by
  obtain ⟨engine, settings, cascade, documents, maker⟩ := s
  cases engine with
  | disabled => exact ⟨cascade, rfl⟩
  | enabled => exact ⟨(cascade.resolve fs d.path).value.2, rfl⟩

/-- The documents of a batch show their failures one after the other. -/
theorem errorMessages_validateEach {s : Session} (hmaker : s.maker.Quiet) (ds : List Document) :
    errorMessages (s.validateEach fs ds).log =
      ((s.validateEach fs ds).value.1.filterMap (·.failure?)).map Failure.report := by
  induction ds generalizing s with
  | nil => rfl
  | cons d ds ih =>
    -- the maker stays, so the documents that are left show their failures in the same way
    obtain ⟨cascade, hafter⟩ := exists_validate_eq fs s d
    have hrest := @ih (s.validate fs d).value.2 (by rw [hafter]; exact hmaker)
    have hfirst : errorMessages (s.validate fs d).log = _ := errorMessages_validate hmaker d
    show errorMessages ((s.validate fs d).log ++ (((s.validate fs d).value.2.validateEach fs ds).log ++ [])) =
      ((⟨d, (s.validate fs d).value.1⟩ :: ((s.validate fs d).value.2.validateEach fs ds).value.1 :
        List Outcome).filterMap (·.failure?)).map Failure.report
    rw [List.append_nil, errorMessages_append, hfirst, hrest, List.filterMap_cons]
    rcases Outcome.failure? ⟨d, (s.validate fs d).value.1⟩ with _ | failure
    · rfl
    · rfl

/-- The outcome of a document under some configuration: the diagnostics on what is found, or a failure that has the
path of the document. -/
def ComesTo (maker : ValidatorMaker) (d : Document) (o : Outcome) : Prop :=
  ∃ config, o = ⟨d, match attempt maker config d with
    | .ok findings => .ok (Report.diagnostics d.text findings)
    | .error cause => .error ⟨d.path, cause⟩⟩

theorem comesTo_validate (fs : FileSystem) {s : Session} (henabled : s.engine = .enabled) (d : Document) :
    ComesTo s.maker d ⟨d, (s.validate fs d).value.1⟩ := by
  refine ⟨(s.cascade.resolve fs d.path).value.1, ?_⟩
  rw [value_validate, henabled]
  dsimp only
  rw [value_run]
  rcases attempt s.maker _ d with cause | findings
  · rfl
  · rfl

theorem forall₂_validateEach (fs : FileSystem) {s : Session} (henabled : s.engine = .enabled) (ds : List Document) :
    List.Forall₂ (ComesTo s.maker) ds (s.validateEach fs ds).value.1 := by
  induction ds generalizing s with
  | nil => exact .nil
  | cons d ds ih =>
    obtain ⟨cascade, hafter⟩ := exists_validate_eq fs s d
    have hrest : List.Forall₂ (ComesTo s.maker) ds ((s.validate fs d).value.2.validateEach fs ds).value.1 := by
      rw [hafter]
      exact @ih { s with cascade } henabled
    exact .cons (comesTo_validate fs henabled d) hrest

theorem log_validateBatch (s : Session) (ds : List Document) :
    (s.validateBatch fs ds).log = (s.validateEach fs ds).log ++
      ((BatchReport.ofOutcomes (s.validateEach fs ds).value.1).errorMessage?.toList.map fun message =>
        ⟨.error, message⟩) := by
  rw [validateBatch, Logged.log_bind]
  rcases (s.validateEach fs ds).value with ⟨outcomes, after⟩
  dsimp only
  rcases (BatchReport.ofOutcomes outcomes).errorMessage? with _ | message
  · rfl
  · rfl

/-- **Failures are shown once each and once together.**  Let an enabled session validate a batch, with a maker that
shows no errors of its own.  Each document comes to an outcome, in order, and the failures of the report are those of
the documents that fail.  The errors that are shown are the reports on these failures and then the message on the
batch, which there is when something failed.  A report is the text of the failure, or for a crash it names the path.
The message states the number of failures and holds the text of each of them in order.  The text for a crash that left
nothing to show names the path as well. -/
theorem failures_surfaced_once (fs : FileSystem) {s : Session} (henabled : s.engine = .enabled)
    (hmaker : s.maker.Quiet) (ds : List Document) :
    let batch := s.validateBatch fs ds
    let report := batch.value.1
    (∃ outcomes, List.Forall₂ (ComesTo s.maker) ds outcomes ∧ report = .ofOutcomes outcomes ∧
      report.failures.length = outcomes.countP fun o => o.failure?.isSome) ∧
    errorMessages batch.log = report.failures.map Failure.report ++ report.errorMessage?.toList ∧
    (report.errorMessage?.isSome ↔ report.failures.length ≠ 0) ∧
    (∀ message, report.errorMessage? = some message → message.toList =
      ("Failed to validate " ++ toString report.failures.length ++
        if report.failures.length = 1 then " file:" else " files:").toList ++
      report.failures.flatMap fun failure => "\n- ".toList ++ failure.message.toList) ∧
    ∀ failure ∈ report.failures, match failure.cause with
      | .config _ => failure.report = failure.message
      | .crash crash => failure.Names failure.report ∧ (crash = .silent → failure.Names failure.message) := by
  intro batch report
  have hreport : report = .ofOutcomes (s.validateEach fs ds).value.1 := congrArg Prod.fst (value_validateBatch s ds)
  have hlog : errorMessages batch.log = report.failures.map Failure.report ++ report.errorMessage?.toList := by
    rw [hreport, log_validateBatch, errorMessages_append, errorMessages_validateEach hmaker]
    rcases (BatchReport.ofOutcomes _).errorMessage? with _ | message
    · rfl
    · rfl
  refine ⟨⟨_, forall₂_validateEach fs henabled ds, hreport, ?_⟩, hlog, report.isSome_errorMessage?,
    fun message => BatchReport.errorMessage?_eq_some, ?_⟩
  · rw [hreport]
    exact BatchReport.length_failures_ofOutcomes _
  · rintro ⟨p, cause⟩ -
    cases cause with
    | config source => rfl
    | crash crash =>
      refine ⟨Failure.names_report_crash p crash, ?_⟩
      rintro rfl
      exact Failure.names_message_silent p

/-- A maker with one more rule, which breaks down without a word. -/
def frailMaker : ValidatorMaker := fun config =>
  if config.isEnabled "frail" then return .ok ⟨[⟨"frail", fun _ => .error .silent⟩]⟩ else ValidatorMaker.standard config

theorem quiet_frailMaker : frailMaker.Quiet := by
  intro config
  rw [frailMaker]
  split
  · exact Logged.quiet_pure _
  · exact ValidatorMaker.quiet_standard config

/-- One rule file turns the frail rule on, the other one makes no validator. -/
def frailFiles : MemoryFiles :=
  .ofList [(Path.components ⟨"/frail/.htmlhintrc"⟩, "\x7b\"frail\": true\x7d"),
    (Path.components ⟨"/bad/.htmlhintrc"⟩, "\x7b\"max-length\": \x7b\"max\": 0\x7d\x7d")]

def frailSession : Session := (new .defaults (some ⟨"/"⟩)).withMaker frailMaker

theorem failures_surfaced_once_frail :
    let batch := [imageDocument "/frail/a.isml", imageDocument "/b.isml", imageDocument "/bad/c.isml"]
    errorMessages (frailSession.validateBatch frailFiles.fileSystem batch).log =
      ["Validation of /frail/a.isml panicked: unknown error occurred while validating file: /frail/a.isml",
        "Invalid rule configuration for /bad/c.isml: Invalid option for rule 'max-length': " ++
          "'max' must be a positive integer",
        "Failed to validate 2 files:\n- unknown error occurred while validating file: /frail/a.isml\n- " ++
          "Invalid rule configuration for /bad/c.isml: Invalid option for rule 'max-length': " ++
          "'max' must be a positive integer"] := by
  intro batch
  obtain ⟨-, hlog, -⟩ := failures_surfaced_once frailFiles.fileSystem (s := frailSession) rfl quiet_frailMaker batch
  rw [hlog]
  decide +kernel

end Session

end TagLint
