import TagLint.Report.Range
import TagLint.Report.Uri

/-!
# Diagnostics — findings as an editor shows them
-/

namespace TagLint.Report

/-- The name under which diagnostics are published. -/
def sourceName : String := "isml"

/-- A finding with its range and the page of its rule. -/
structure Diagnostic where
  range : Range
  severity : Severity
  code : String
  page : Option String
  source : String
  message : String
  deriving DecidableEq, Repr

def diagnostic (text : List Char) (finding : Finding) : Diagnostic :=
  ⟨range finding text, finding.severity, finding.ruleId, rulePage? finding.ruleId, sourceName, finding.message⟩

/-- The diagnostics of a document, in the order of its findings. -/
def diagnostics (text : String) (findings : List Finding) : List Diagnostic :=
  findings.map (diagnostic text.toList)

end TagLint.Report
