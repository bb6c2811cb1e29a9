import TagLint.Decimal.Shortest
import TagLint.Text.Lower
import TagLint.Text.Quoted
import TagLint.Toml.Value

/-!
# Settings errors — why files give no settings

Every error has the same message; what is behind it names the setting, the value and the file that gave it.
-/

namespace TagLint

/-- Why there are no settings. -/
inductive SettingsError
  /-- A file is not well-formed. -/
  | malformed
  /-- A truth value is wanted. -/
  | notTruth (key : String) (found : Toml) (file? : Option String)
  /-- A table is wanted. -/
  | notTable (key : String) (found : Toml)

namespace Toml

/-- A float without an exponent. -/
def floatText (x : Binary64) : String :=
  (if x.negative then "-" else "")
    ++ (if x.magnitude = 0 then "0.0" else String.ofList (Decimal.positional (Decimal.shortest x.magnitude)))

/-- A value as it is named where another one is wanted. -/
def describe : Toml → String
  | .bool b => "boolean `" ++ (if b then "true" else "false") ++ "`"
  | .integer n => "integer `" ++ toString n ++ "`"
  | .float x => "floating point `" ++ floatText x ++ "`"
  | .infinite negative => "floating point `" ++ (if negative then "-" else "") ++ "inf`"
  | .notANumber => "floating point `NaN`"
  | .text s => "string " ++ Text.quote s
  | .array _ => "sequence"
  | .table _ => "map"
  | .missing => "unit value"

/-- A value with its words in small letters, as they are compared. -/
def withSmallLetters : Toml → Toml
  | .text s => .text (Text.lower s)
  | v => v

end Toml

namespace SettingsError

def message (_ : SettingsError) : String := "Configuration build/deserialize error"

/-- What is behind an error, unless it is the syntax of a file. -/
def cause? : SettingsError → Option String
  | .malformed => none
  | .notTruth key found file? =>
    some ("invalid type: " ++ found.withSmallLetters.describe ++ ", expected a boolean for key `" ++ key ++ "`"
      ++ (file?.map (" in " ++ ·)).getD "")
  | .notTable key found => some ("invalid type: " ++ found.describe ++ ", expected a map for key `" ++ key ++ "`")

end SettingsError

end TagLint
