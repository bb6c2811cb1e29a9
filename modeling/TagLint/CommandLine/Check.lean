import TagLint.CommandLine.Options
import TagLint.Session
import TagLint.Settings.Files

/-!
# Checks — one source file with its events

A check loads the settings, then the rules in place of rule files, the source, the events, and validates.  The first
of these steps that fails is the one that is reported.
-/

namespace TagLint.CommandLine

/-- Where a check takes place. -/
structure Environment where
  workingDir : Path
  userSettings? : Option Path

/-- Why a check has no outcome. -/
inductive CheckError
  | settings (e : SettingsError)
  | readConfig (p : Path) (e : ReadError)
  | parseConfig (p : Path) (e : RuleConfig.ParseError)
  | readSource (p : Path) (e : ReadError)
  | readEvents (p : Path) (e : ReadError)
  | parseEvents (p : Path) (e : Json.Refusal)
  | validate (p : Path) (f : Failure)

namespace CheckError

/-- The error and the errors behind it, outermost first. -/
def chain : CheckError → List String
  | .settings e => ["Failed to load settings", e.message] ++ e.cause?.toList
  | .readConfig p e => ["Failed to read rule config " ++ p.text, e.message]
  | .parseConfig p e => ["Failed to parse rule config " ++ p.text, e.message, e.refusal.message]
  | .readSource p e => ["Failed to read " ++ p.text, e.message]
  | .readEvents p e => ["Failed to read events " ++ p.text, e.message]
  | .parseEvents p e => ["Failed to parse events " ++ p.text, e.message]
  | .validate p f => ("Failed to validate " ++ p.text) :: f.chain

def message (e : CheckError) : String := String.intercalate ": " e.chain

end CheckError

/-- The settings of a check: those of the settings files, with the rules that the options name. -/
def settingsFor (fs : FileSystem) (env : Environment) (options : CheckOptions) : Except CheckError Settings := do
  let settings ← (Settings.load fs env.userSettings? env.workingDir).mapError .settings
  match options.config with
  | none => return settings
  | some p =>
    let text ← (fs.read p).mapError (.readConfig p)
    let rules ← (RuleConfig.parse text).mapError (.parseConfig p)
    return settings.withRules rules

/-- The source file seen from the working directory. -/
def sourcePath (env : Environment) (options : CheckOptions) : Path := env.workingDir.join options.source

/-- The document of a check. -/
def documentFor (fs : FileSystem) (env : Environment) (options : CheckOptions) : Except CheckError Document := do
  let p := sourcePath env options
  let text ← (fs.read p).mapError (.readSource p)
  let events ← (fs.read options.events).mapError (.readEvents options.events)
  (Document.ofEventsText p text events).mapError (.parseEvents options.events)

/-- The document of a check and what the rules find in it. -/
def check (fs : FileSystem) (env : Environment) (options : CheckOptions) :
    Logged (Except CheckError (Document × List Finding)) := do
  let prepared : Except CheckError (Settings × Document) := do
    let settings ← settingsFor fs env options
    return (settings, ← documentFor fs env options)
  match prepared with
  | .error e => return .error e
  | .ok (settings, d) =>
    let (result, _) ← (Session.new settings (some env.workingDir)).check fs d
    return (result.map fun findings => (d, findings)).mapError (.validate d.path)

/-- The paths that a check may read. -/
def pathsOf (env : Environment) (options : CheckOptions) : List Path :=
  let settings := env.userSettings?.toList ++ Settings.projectFiles env.workingDir
  let source := sourcePath env options
  settings.flatMap Settings.spellings ++ options.config.toList ++ [source, options.events]
    ++ source.upward.map Cascade.ruleFile

end TagLint.CommandLine
