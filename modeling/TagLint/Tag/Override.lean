import TagLint.Rule.Error
import TagLint.Tag.Builtin

/-!
# Tag overrides — specs written in a configuration

An override is an object (or a list of its fields in order) with the closing form, the required and optional
attributes and the redundant names of a tag.  An attribute is a text with one or more names between bars, or a
list of a name and its allowed values.
-/

namespace TagLint

/-- A requirement as written. -/
inductive WrittenRequirement
  /-- Names with bars between them. -/
  | joined (text : String)
  /-- A name and its allowed values. -/
  | listed (items : List String)

namespace WrittenRequirement

open Json

def ofJson (j : Json) : Except Mismatch WrittenRequirement :=
  match asString j, asListOf asString j with
  | .ok s, _ => .ok (WrittenRequirement.joined s)
  | _, .ok ss => .ok (WrittenRequirement.listed ss)
  | _, _ => .error (.noVariant "RequirementDef")

/-- The requirement that is meant; `tag` is the tag it is written for. -/
def toRequirement (tag : String) : WrittenRequirement → Except RuleError Requirement
  | .joined text =>
    match Requirement.alternatives text with
    | .oneOf [] => .error (.requirement tag .emptyName)
    | r => .ok r
  | .listed [] => .error (.requirement tag .noName)
  | .listed (name :: allowed) => .ok (.valued name allowed)

end WrittenRequirement

/-- A tag spec as written, with the default of every field left out. -/
structure WrittenSpec where
  selfclosing : Option Bool
  required : List WrittenRequirement
  optional : List WrittenRequirement
  redundant : List String

namespace WrittenSpec

open Json

/-- The fields of a written spec read so far. -/
structure Fields where
  selfclosing : Option (Option Bool) := none
  required : Option (List WrittenRequirement) := none
  optional : Option (List WrittenRequirement) := none
  redundant : Option (List String) := none

def asRequirements : Json → Except Mismatch (List WrittenRequirement) := asListOf WrittenRequirement.ofJson

/-- A field by any of its spellings. -/
def Fields.read (fields : Fields) (m : String × Json) : Except Mismatch Fields :=
  if m.1 = "selfclosing" then
    return { fields with selfclosing := ← fill "selfclosing" fields.selfclosing (asOptional asBool) m.2 }
  else if m.1 ∈ ["attrsRequired", "attrsrequired", "attrs_required"] then
    return { fields with required := ← fill "attrsRequired" fields.required asRequirements m.2 }
  else if m.1 ∈ ["attrsOptional", "attrsoptional", "attrs_optional"] then
    return { fields with optional := ← fill "attrsOptional" fields.optional asRequirements m.2 }
  else if m.1 ∈ ["redundantAttrs", "redundantattrs", "redundant_attrs"] then
    return { fields with redundant := ← fill "redundantAttrs" fields.redundant (asListOf asString) m.2 }
  else return fields

def ofItems (items : List Json) : Except Mismatch WrittenSpec := do
  let count := items.length
  let (selfclosing, items) ← nextFieldOr none (asOptional asBool) items
  let (required, items) ← nextFieldOr [] asRequirements items
  let (optional, items) ← nextFieldOr [] asRequirements items
  let (redundant, items) ← nextFieldOr [] (asListOf asString) items
  if items.isEmpty then return ⟨selfclosing, required, optional, redundant⟩
  else throw (.length count "fewer elements in array")

def ofJson : Json → Except Mismatch WrittenSpec
  | .object members => do
    let fields ← members.foldlM Fields.read {}
    return ⟨fields.selfclosing.join, fields.required.getD [], fields.optional.getD [], fields.redundant.getD []⟩
  | .array items => ofItems items
  | j => .error (.type j "struct TagSpecDef")

/-- The spec that is meant; `tag` is the tag it is written for. -/
def toSpec (tag : String) (written : WrittenSpec) : Except RuleError TagSpec := do
  let required ← written.required.mapM (·.toRequirement tag)
  let optional ← written.optional.mapM (·.toRequirement tag)
  return ⟨Text.fold tag, .ofOption written.selfclosing, required, optional, written.redundant⟩

end WrittenSpec

namespace TagSpecs

/-- The spec of one tag of a configuration. -/
def readSpec (tag : String) (value : Json) : Except RuleError TagSpec := do
  let written ← (WrittenSpec.ofJson value).mapError (.tagSpec tag)
  written.toSpec tag

/-- The registry of the members of a configuration object, read in order: of names that differ in case only, the
last one counts. -/
def ofOverrides (members : List (String × Json)) : Except RuleError TagSpecs := do
  return ofSpecs (← members.mapM fun m => readSpec m.1 m.2)

end TagSpecs

end TagLint
