import TagLint.Json.Mismatch
import TagLint.Rule.Config

/-!
# Settings — what a user sets for all files

Settings turn the whole engine on or off and may carry rules.  Rules that are set replace every rule file.
-/

namespace TagLint

/-- The settings of a user or project. -/
structure Settings where
  enabled : Bool := true
  debug : Bool := false
  rules : RuleConfig := .empty

namespace Settings

/-- The settings where nothing is set. -/
def defaults : Settings := {}

def withEnabled (s : Settings) (enabled : Bool) : Settings := { s with enabled }

def withRules (s : Settings) (rules : RuleConfig) : Settings := { s with rules }

/-! ## Settings as an editor sends them -/

open Json

/-- The rules in a canonical value. -/
def rulesOfJson : Json → Except Mismatch RuleConfig
  | .object members => .ok (RuleConfig.ofMembers members)
  | j => .error (.type j "a map")

/-- Set the field that a member names; other members do not count. -/
def readMember (s : Settings) : String × Json → Except Mismatch Settings
  | ("enabled", j) => return { s with enabled := ← asBool j }
  | ("debug", j) => return { s with debug := ← asBool j }
  | ("rules", j) => return { s with rules := ← rulesOfJson j }
  | _ => return s

/-- Settings in a canonical value: an object, or a list of the fields in order.  What is left out has its default. -/
def ofJson : Json → Except Mismatch Settings
  | .object members => members.foldlM readMember defaults
  | .array items => do
    let (enabled, rest) ← nextFieldOr defaults.enabled asBool items
    let (debug, rest) ← nextFieldOr defaults.debug asBool rest
    let (rules, rest) ← nextFieldOr defaults.rules rulesOfJson rest
    if rest.isEmpty then return ⟨enabled, debug, rules⟩
    else throw (.length items.length "fewer elements in array")
  | j => .error (.type j "struct Settings")

end Settings

end TagLint
