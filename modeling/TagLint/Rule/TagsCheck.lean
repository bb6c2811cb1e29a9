import TagLint.Finding
import TagLint.Rule.Option
import TagLint.Tag.Event
import TagLint.Tag.Override

/-!
# The tag rule — closing form, required, restricted and redundant attributes

A tag with a spec is checked against it; other tags are not checked at all.
-/

namespace TagLint.TagsCheck

/-- The id of the rule. -/
def ruleId : String := "tags-check"

/-- The registry of an option: the builtin specs, under the overrides of an option that is an object. -/
def specsOf (option : RuleOption) : Except RuleError TagSpecs :=
  match option.object? with
  | some members => (TagSpecs.ofOverrides members).map TagSpecs.builtin.merge
  | none => .ok TagSpecs.builtin

/-- The number of tags that an option overrides. -/
def overrideCount? (option : RuleOption) : Option Nat :=
  match option.object? with
  | some members => (TagSpecs.ofOverrides members).toOption.map (·.size)
  | none => none

/-! ## Findings of one tag -/

section

variable (tag : OpenTag)

/-- A finding at the tag itself. -/
def atTag (message : String) : Finding := .error ruleId message tag.line tag.col tag.raw

/-- A finding at an attribute of the tag. -/
def atAttr (attr : Attribute) (message : String) : Finding :=
  .error ruleId message tag.line (tag.attrCol attr) tag.raw

def closingFindings : ClosingPolicy → List Finding
  | .mustSelfClose =>
    if tag.selfClosed then [] else [atTag tag ("The <" ++ tag.name ++ "> tag must be selfclosing.")]
  | .mustNotSelfClose =>
    if tag.selfClosed then [atTag tag ("The <" ++ tag.name ++ "> tag must not be selfclosing.")] else []
  | .unconstrained => []

/-- An attribute with another value than the allowed ones. -/
def valueFinding (verb : String) (allowed : List String) (attr : Attribute) : Finding :=
  atAttr tag attr ("The <" ++ tag.name ++ "> tag " ++ verb ++ " attr '" ++ attr.name ++ "' with one value of '"
    ++ String.intercalate "' or '" allowed ++ "'.")

def requiredFindings (requirement : Requirement) : List Finding :=
  match requirement.check tag.attrs with
  | .satisfied => []
  | .missing name => [atTag tag ("The <" ++ tag.name ++ "> tag must have attr '" ++ name ++ "'.")]
  | .invalid attrs allowed => attrs.map (valueFinding tag "must have" allowed)

/-- An optional attribute may be left out; only its values are checked. -/
def optionalFindings (requirement : Requirement) : List Finding :=
  if requirement.hasAllowedValues then
    match requirement.check tag.attrs with
    | .invalid attrs allowed => attrs.map (valueFinding tag "can have" allowed)
    | _ => []
  else []

def redundantFindings (name : String) : List Finding :=
  match tag.attrsNamed name with
  | attr :: _ =>
    [atAttr tag attr ("The attr '" ++ name ++ "' is redundant for <" ++ tag.name ++ "> and should be omitted.")]
  | [] => []

/-- What a tag violates of its spec. -/
def checkTag (spec : TagSpec) : List Finding :=
  closingFindings tag spec.closing
    ++ spec.required.flatMap (requiredFindings tag)
    ++ spec.optional.flatMap (optionalFindings tag)
    ++ spec.redundant.flatMap (redundantFindings tag)

end

/-- What an event violates. -/
def check (specs : TagSpecs) : Event → List Finding
  | .openTag tag =>
    match specs.find? tag.name with
    | some spec => checkTag tag spec
    | none => []
  | _ => []

end TagLint.TagsCheck
