import TagLint.Tag.Occurrence
import TagLint.Text.Split

/-!
# Attribute requirements — conditions on the attributes of a tag

A requirement asks for one of several names, or for one name with a value of a list.  `Requirement.check` passes
the attributes once; the values of an attribute matter only when its name is there.
-/

namespace TagLint

/-- A condition on the attributes of a tag. -/
inductive Requirement
  /-- One of the names is there. -/
  | oneOf (names : List String)
  /-- The name is there, always with an allowed value. -/
  | valued (name : String) (allowed : List String)
  deriving DecidableEq, Repr

namespace Requirement

/-- Names written with bars between them. -/
def alternatives (names : String) : Requirement :=
  .oneOf (((Text.splitAt '|' names.toList).filter fun p => !p.isEmpty).map String.ofList)

/-- Whether values are checked against a list. -/
def hasAllowedValues : Requirement → Bool
  | .oneOf _ => false
  | .valued _ _ => true

/-- The name as it stands in messages. -/
def displayName : Requirement → String
  | .oneOf names => String.intercalate "|" names
  | .valued name _ => name

/-- What a check of a requirement finds. -/
inductive Outcome
  | satisfied
  /-- No attribute has the required name. -/
  | missing (name : String)
  /-- These attributes have the name with another value than the allowed ones. -/
  | invalid (attrs : List Attribute) (allowed : List String)
  deriving DecidableEq, Repr

/-- What one pass over the attributes of a tag has noted about a name: whether it is there, and the attributes of that
name whose values are not allowed. -/
structure Pass where
  present : Bool
  bad : List Attribute

/-- Before the first attribute. -/
def Pass.start : Pass := ⟨false, []⟩

/-- Past one more attribute, which counts if it has the name. -/
def Pass.step (name : String) (allowed : List String) (pass : Pass) (attr : Attribute) : Pass :=
  if attr.name == name then ⟨true, if allowed.contains attr.value then pass.bad else pass.bad ++ [attr]⟩
  else pass

/-- Check a requirement against the attributes of a tag. -/
def check (requirement : Requirement) (attrs : List Attribute) : Outcome :=
  match requirement with
  | .oneOf names =>
    if attrs.any fun a => names.contains a.name then .satisfied else .missing requirement.displayName
  | .valued name allowed =>
    let pass := attrs.foldl (Pass.step name allowed) .start
    if !pass.present then .missing name
    else if pass.bad.isEmpty then .satisfied
    else .invalid pass.bad allowed

end Requirement

end TagLint
