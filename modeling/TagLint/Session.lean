import TagLint.Cascade
import TagLint.Session.Batch
import TagLint.Session.OpenDocuments
import TagLint.Settings

/-!
# Sessions — validation with the state that outlives one document

A session has the settings in force, whether the engine runs, what is known about rule files, and the open
documents.  A document is validated under the configuration of its path; a failing document stops no other one.
-/

namespace TagLint

/-- Whether documents are validated at all. -/
inductive Engine
  | disabled
  | enabled
  deriving DecidableEq, Repr

def Engine.ofFlag (enabled : Bool) : Engine := if enabled then .enabled else .disabled

/-- Makes the validator of a configuration, or breaks down. -/
abbrev ValidatorMaker := RuleConfig → Logged (Except Breakdown Validator)

/-- The maker of the rules of this library. -/
def ValidatorMaker.standard : ValidatorMaker := fun config => do
  return (← Validator.build config).mapError .config

structure Session where
  engine : Engine
  settings : Settings
  cascade : Cascade
  documents : OpenDocuments
  maker : ValidatorMaker

namespace Session

/-- A session in which nothing is known or open yet. -/
def new (settings : Settings) (workingDir : Option Path) : Session where
  engine := .ofFlag settings.enabled
  settings
  cascade := (Cascade.new workingDir).setEditorOverride settings.rules
  documents := .empty
  maker := .standard

def withMaker (s : Session) (maker : ValidatorMaker) : Session := { s with maker }

/-! ## Engine and settings -/

def enable (s : Session) : Logged Session := do
  if s.engine = .disabled then Logged.say .info "Validation engine enabled"
  return { s with engine := .enabled }

def disable (s : Session) : Logged Session := do
  if s.engine = .enabled then Logged.say .info "Validation engine disabled"
  return { s with engine := .disabled }

/-- Put new settings in force. -/
def changeSettings (s : Session) (settings : Settings) : Logged Session := do
  Logged.say .debug "Applying updated settings"
  let s := { s with cascade := s.cascade.setEditorOverride settings.rules, settings }
  if settings.enabled then s.enable else s.disable

/-- Files changed, perhaps rule files. -/
def didChangeFiles (s : Session) (paths : List Path) : Logged Session := do
  return { s with cascade := ← s.cascade.didChangeFiles paths }

/-- The configuration in force for a path. -/
def resolve (fs : FileSystem) (s : Session) (p : Path) : Logged (RuleConfig × Session) := do
  let (config, cascade) ← s.cascade.resolve fs p
  return (config, { s with cascade })

/-! ## Validation -/

/-- What the rules of a configuration find in a document. -/
def run (maker : ValidatorMaker) (config : RuleConfig) (d : Document) :
    Logged (Except Failure (List Finding)) := do
  let made ← maker config
  match made.bind fun v => (v.validate d.events).mapError .crash with
  | .ok findings =>
    Logged.say .debug (toString findings.length ++ " findings for " ++ d.path.text)
    return .ok findings
  | .error cause =>
    let failure : Failure := ⟨d.path, cause⟩
    Logged.say .error failure.report
    return .error failure

/-- The findings of a document: none while the engine is off. -/
def check (fs : FileSystem) (s : Session) (d : Document) :
    Logged (Except Failure (List Finding) × Session) := do
  match s.engine with
  | .disabled => return (.ok [], s)
  | .enabled =>
    let (config, s) ← s.resolve fs d.path
    return (← run s.maker config d, s)

/-- The diagnostics of a document. -/
def validate (fs : FileSystem) (s : Session) (d : Document) :
    Logged (Except Failure (List Report.Diagnostic) × Session) := do
  let (findings, s) ← s.check fs d
  return (findings.map (Report.diagnostics d.text), s)

/-- Validate documents one after the other. -/
def validateEach (fs : FileSystem) (s : Session) : List Document → Logged (List Outcome × Session)
  | [] => return ([], s)
  | d :: ds => do
    let (result, s) ← s.validate fs d
    let (outcomes, s) ← s.validateEach fs ds
    return (⟨d, result⟩ :: outcomes, s)

/-- Validate documents and report on all of them; failures are reported once more together. -/
def validateBatch (fs : FileSystem) (s : Session) (ds : List Document) : Logged (BatchReport × Session) := do
  let (outcomes, s) ← s.validateEach fs ds
  let report := BatchReport.ofOutcomes outcomes
  if let some message := report.errorMessage? then Logged.say .error message
  return (report, s)

/-- Validate every open document. -/
def validateOpen (fs : FileSystem) (s : Session) : Logged (BatchReport × Session) :=
  s.validateBatch fs s.documents.toList

/-! ## Documents -/

def openDocument (s : Session) (d : Document) : Logged Session := do
  return { s with documents := ← s.documents.openDocument d }

def updateDocument (s : Session) (d : Document) : Logged (Bool × Session) := do
  let (known, documents) ← s.documents.update d
  return (known, { s with documents })

def closeDocument (s : Session) (p : Path) : Logged (Option Document × Session) := do
  let (closed, documents) ← s.documents.close p
  return (closed, { s with documents })

end Session

end TagLint
