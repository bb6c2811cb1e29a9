import TagLint.Files.FileSystem
import TagLint.Settings
import TagLint.Settings.Error
import TagLint.Settings.Layer
import TagLint.Text.Fold
import TagLint.Toml.Reader

/-!
# Settings files — the settings of a user and of a project

A user's file is overlaid by two files of the project, the one with the plain name on top.  A file that is not there
sets nothing, and neither does one whose bytes cannot be had; a malformed one spoils the settings whatever the others
hold.
-/

namespace TagLint

namespace Settings

/-! ## Values -/

/-- The words for a truth value. -/
def boolOfWord? (s : String) : Option Bool :=
  let word := Text.fold s
  if ["1", "true", "on", "yes"].contains word then some true
  else if ["0", "false", "off", "no"].contains word then some false
  else none

/-- A truth value, a number other than zero, or a word. -/
def boolOf? : Toml → Option Bool
  | .bool b => some b
  | .integer n => some (n ≠ 0)
  | .float x => some (x.magnitude ≠ 0)
  | .infinite _ => some true
  | .notANumber => some true
  | .text s => boolOfWord? s
  | _ => none

mutual

/-- A value as JSON, which has no infinities. -/
def toJson : Toml → Json
  | .bool b => .bool b
  | .integer n => .number (if 0 ≤ n then .natural n.natAbs else .negative n.natAbs)
  | .float x => .number (.double x)
  | .infinite _ => .null
  | .notANumber => .null
  | .text s => .string s
  | .array items => .array (toJsonItems items)
  | .table entries => .object (toJsonMembers entries)
  | .missing => .null

def toJsonItems : List Toml → List Json
  | [] => []
  | v :: vs => toJson v :: toJsonItems vs

def toJsonMembers : List (String × Toml) → List (String × Json)
  | [] => []
  | (k, v) :: es => (k, toJson v) :: toJsonMembers es

end

/-- The rules in a table. -/
def rulesOf? : Toml → Option RuleConfig
  | .table entries => some (RuleConfig.ofMembers (toJsonMembers entries))
  | _ => none

/-- The truth value that a key is set to, or its default. -/
def truthAt (settings : List (String × Setting)) (key : String) (default : Bool) : Except SettingsError Bool :=
  match Toml.lookup? settings key with
  | none => .ok default
  | some s =>
    match boolOf? s.value with
    | some b => .ok b
    | none => .error (.notTruth key s.value s.file?)

/-- The rules that a key is set to, or none. -/
def rulesAt (settings : List (String × Setting)) (key : String) : Except SettingsError RuleConfig :=
  match Toml.lookup? settings key with
  | none => .ok defaults.rules
  | some s =>
    match rulesOf? s.value with
    | some rules => .ok rules
    | none => .error (.notTable key s.value)

/-- The settings that are set. -/
def ofSettings (settings : List (String × Setting)) : Except SettingsError Settings := do
  let enabled ← truthAt settings "enabled" defaults.enabled
  let debug ← truthAt settings "debug" defaults.debug
  let rules ← rulesAt settings "rules"
  return ⟨enabled, debug, rules⟩

/-! ## Files -/

/-- The name of a settings file. -/
def fileName : String := "isls.toml"

/-- The user's settings file, in the directory for configuration or in the one below the home directory. -/
def userFile? (configDir? homeDir? : Option Path) : Option Path :=
  match configDir?.filter (·.isAbsolute), homeDir? with
  | some dir, _ => some (dir.join ⟨"isls/" ++ fileName⟩)
  | none, some home => some (home.join ⟨".config/isls/" ++ fileName⟩)
  | none, none => none

/-- The settings files of a project, the least important first. -/
def projectFiles (root : Path) : List Path := [root.join ⟨"." ++ fileName⟩, root.join ⟨fileName⟩]

/-- The paths under which a settings file is looked for: its own, then the one with its extension twice. -/
def spellings (p : Path) : List Path := [p, ⟨p.text ++ ".toml"⟩]

/-- Where a settings file is: at the first of these paths that leads to a file. -/
def place? (fs : FileSystem) (p : Path) : Option Path := (spellings p).find? fs.hasFile

/-- A text without the mark that may tell the order of its bytes. -/
def withoutMark (text : String) : String := String.ofList (Toml.dropMark text.toList)

/-- A settings file: its name as seen from some directory, and its text. -/
def readFile? (fs : FileSystem) (base p : Path) : Option (String × String) := do
  let q ← place? fs p
  let text ← fs.textOf? q
  return ((q.seenFrom base).text, withoutMark text)

/-- The entries of a settings text. -/
def parseLayer (file : String × String) : Except SettingsError Layer :=
  match Toml.parse file.2 with
  | some entries => .ok ⟨file.1, entries⟩
  | none => .error .malformed

/-- The settings of files laid over each other, the last one on top. -/
def ofFiles (files : List (String × String)) : Except SettingsError Settings := do
  ofSettings (layAll (← files.mapM parseLayer))

/-- The settings for a project. -/
def load (fs : FileSystem) (user? : Option Path) (root : Path) : Except SettingsError Settings :=
  ofFiles ((user?.toList ++ projectFiles root).filterMap (readFile? fs root))

end Settings

end TagLint
