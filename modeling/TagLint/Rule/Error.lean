import TagLint.Json.Mismatch

/-!
# Rule errors — options from which no rule can be made
-/

namespace TagLint

/-- What is wrong with a requirement. -/
inductive RequirementProblem
  | emptyName
  | noName
  deriving DecidableEq, Repr

def RequirementProblem.message : RequirementProblem → String
  | .emptyName => "attribute name is empty"
  | .noName => "value list needs an attribute name first"

/-- What is wrong with the option of the length rule. -/
inductive LimitProblem
  | mismatch (m : Json.Mismatch)
  | zero

def LimitProblem.message : LimitProblem → String
  | .mismatch m => m.message
  | .zero => "'max' must be a positive integer"

/-- An option from which no rule can be made. -/
inductive RuleError
  /-- The spec of a tag has the wrong shape. -/
  | tagSpec (tag : String) (m : Json.Mismatch)
  | requirement (tag : String) (problem : RequirementProblem)
  | limit (rule : String) (problem : LimitProblem)

namespace RuleError

def message : RuleError → String
  | .tagSpec tag m => "Invalid tag spec for <" ++ tag ++ ">: " ++ m.message
  | .requirement tag problem =>
    "Invalid attribute requirement for <" ++ tag ++ ">: " ++ problem.message
  | .limit rule problem => "Invalid option for rule '" ++ rule ++ "': " ++ problem.message

/-- The error and the errors behind it, outermost first. -/
def chain : RuleError → List String
  | .tagSpec tag m => [message (.tagSpec tag m), m.message]
  | e => [e.message]

end RuleError

end TagLint
