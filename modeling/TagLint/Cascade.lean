import TagLint.Files.FileSystem
import TagLint.Log
import TagLint.Rule.Config

/-!
# Cascade — which rule file applies to a file

A file is checked under the rule file of the nearest directory at or above it that has a readable one.  What each
directory holds is remembered until a notification names it.  Rules set in the editor replace all rule files.
-/

namespace TagLint

/-- The name of a rule file. -/
def ruleFileName : String := ".htmlhintrc"

/-- What is known about the rule file of a directory. -/
inductive CacheEntry
  /-- Not looked up yet, or not since the last notification. -/
  | unknown
  /-- There is none, or it cannot be read. -/
  | missing
  | found (config : RuleConfig)

/-- The state of rule file discovery.  Directories are known by their components. -/
structure Cascade where
  workingDir : Option Path
  editorOverride : RuleConfig
  cache : SortedMap (List Component) CacheEntry
  /-- The rule files read so far, the latest first. -/
  reads : List Path

namespace Cascade

/-- Nothing is known; relative paths start in `workingDir`, if there is one. -/
def new (workingDir : Option Path) : Cascade := ⟨workingDir, .empty, .empty, []⟩

def setEditorOverride (c : Cascade) (rules : RuleConfig) : Cascade := { c with editorOverride := rules }

/-- A path seen from the working directory. -/
def absolute (c : Cascade) (p : Path) : Path :=
  match c.workingDir with
  | some dir => dir.join p
  | none => p

/-- What is known about a directory. -/
def entry (c : Cascade) (dir : Path) : CacheEntry := (c.cache.get? dir.components).getD .unknown

/-- What is known about a directory given by any path. -/
def cached (c : Cascade) (dir : Path) : CacheEntry := c.entry (c.absolute dir)

/-- The rule file of a directory. -/
def ruleFile (dir : Path) : Path := dir.join ⟨ruleFileName⟩

/-- Read the rule file of a directory, and keep account of that. -/
def readRuleFile (fs : FileSystem) (c : Cascade) (dir : Path) : Logged (CacheEntry × Cascade) :=
  let path := ruleFile dir
  let c := { c with reads := path :: c.reads }
  match fs.read path with
  | .error _ => return (.missing, c)
  | .ok text =>
    match RuleConfig.parse text with
    | .ok config => do
      Logged.say .debug ("Loaded rule config from " ++ path.text)
      return (.found config, c)
    | .error e => do
      Logged.say .warn ("Ignoring unparsable rule config " ++ path.text ++ ": " ++ e.message)
      return (.missing, c)

/-- Remember what is known about a directory. -/
def remember (c : Cascade) (dir : Path) (e : CacheEntry) : Cascade :=
  { c with cache := c.cache.insert dir.components e }

/-- What a directory holds, read if it is not known. -/
def lookUp (fs : FileSystem) (c : Cascade) (dir : Path) : Logged (CacheEntry × Cascade) :=
  match c.entry dir with
  | .unknown => do
    let (e, c) ← c.readRuleFile fs dir
    return (e, c.remember dir e)
  | e => do
    Logged.say .trace ("Rule config cache hit for " ++ dir.text)
    return (e, c)

/-- The configuration of the first directory that has one. -/
def findIn (fs : FileSystem) (c : Cascade) : List Path → Logged (Option RuleConfig × Cascade)
  | [] => return (none, c)
  | dir :: dirs => do
    let (e, c) ← c.lookUp fs dir
    match e with
    | .found config => return (some config, c)
    | _ => c.findIn fs dirs

/-- The directories whose rule file may apply to a file or directory, the nearest first. -/
def candidates (fs : FileSystem) (c : Cascade) (p : Path) : List Path :=
  let p := c.absolute p
  if fs.isDirectory p then p.upward
  else
    match p.above? with
    | some dir => dir.upward
    | none => []

/-- The configuration of the nearest rule file at or above a path. -/
def findOverride (fs : FileSystem) (c : Cascade) (p : Path) : Logged (Option RuleConfig × Cascade) :=
  c.findIn fs (c.candidates fs p)

/-- The configuration in force for a path. -/
def resolve (fs : FileSystem) (c : Cascade) (p : Path) : Logged (RuleConfig × Cascade) := do
  if c.editorOverride.isEmpty then
    let (found?, c) ← c.findOverride fs p
    match found? with
    | some found => return (RuleConfig.defaults.overlay found, c)
    | none => return (RuleConfig.defaults, c)
  else
    Logged.say .debug ("Using editor rule override for " ++ p.text)
    return (RuleConfig.defaults.overlay c.editorOverride, c)

/-- The directory that a notification is about: the one that holds the rule file, or the path itself. -/
def notified (p : Path) : Path :=
  if p.fileName? = some ruleFileName then p.parent?.getD p else p

/-- Forget what is known about the directory of a notification. -/
def invalidate (c : Cascade) (p : Path) : Logged Cascade :=
  let dir := notified (c.absolute p)
  if c.cache.contains dir.components then do
    Logged.say .debug ("Invalidating rule config cache for " ++ dir.text)
    return { c with cache := c.cache.insert dir.components .unknown }
  else return c

/-- Notifications about several files. -/
def didChangeFiles (c : Cascade) : List Path → Logged Cascade
  | [] => return c
  | p :: ps => do
    let c ← c.invalidate p
    c.didChangeFiles ps

end Cascade

end TagLint
