import TagLint.Coord

/-!
# Findings — what a rule objects to, and where
-/

namespace TagLint

inductive Severity
  | error
  deriving DecidableEq, Repr

/-- A violation of a rule.  `raw` is the text of the event it was found on. -/
structure Finding where
  severity : Severity
  message : String
  line : Coord
  col : Coord
  ruleId : String
  raw : String
  deriving DecidableEq, Repr

/-- A finding that is an error. -/
def Finding.error (ruleId message : String) (line col : Coord) (raw : String) : Finding :=
  ⟨.error, message, line, col, ruleId, raw⟩

end TagLint
