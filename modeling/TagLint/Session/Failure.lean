import TagLint.Path
import TagLint.Validator

/-!
# Failures — why a document could not be validated
-/

namespace TagLint

/-- Why a validation did not come to an end. -/
inductive Breakdown
  /-- The configuration makes no validator. -/
  | config (source : RuleError)
  /-- A rule or the maker of validators broke down. -/
  | crash (crash : Crash)

/-- A document that could not be validated. -/
structure Failure where
  path : Path
  cause : Breakdown

namespace Failure

def message (f : Failure) : String :=
  match f.cause with
  | .config source => "Invalid rule configuration for " ++ f.path.text ++ ": " ++ source.message
  | .crash (.text message) => message
  | .crash .silent => "unknown error occurred while validating file: " ++ f.path.text

/-- The failure and the errors behind it, outermost first. -/
def chain (f : Failure) : List String :=
  match f.cause with
  | .config source => f.message :: source.chain
  | .crash _ => [f.message]

/-- The failure as it is reported when it happens: a crash is reported with the path. -/
def report (f : Failure) : String :=
  match f.cause with
  | .config _ => f.message
  | .crash _ => "Validation of " ++ f.path.text ++ " panicked: " ++ f.message

end Failure

end TagLint
