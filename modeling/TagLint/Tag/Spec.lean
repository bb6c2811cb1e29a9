import TagLint.SortedMap
import TagLint.Tag.Requirement
import TagLint.Text.Fold

/-!
# Tag specs — the grammar of a tag, and registries of them

A registry is keyed by tag names in small letters; names are looked up without regard to case.
-/

namespace TagLint

/-- Whether a tag is written as `<tag/>`. -/
inductive ClosingPolicy
  | mustSelfClose
  | mustNotSelfClose
  | unconstrained
  deriving DecidableEq, Repr

def ClosingPolicy.ofOption : Option Bool → ClosingPolicy
  | some true => .mustSelfClose
  | some false => .mustNotSelfClose
  | none => .unconstrained

/-- The grammar of one tag. -/
structure TagSpec where
  name : String
  closing : ClosingPolicy
  required : List Requirement
  optional : List Requirement
  redundant : List String
  deriving DecidableEq, Repr

/-- Tag specs by tag name in small letters. -/
abbrev TagSpecs := SortedMap String TagSpec

namespace TagSpecs

/-- The spec of a tag, whatever the case of its name. -/
def find? (specs : TagSpecs) (tagName : String) : Option TagSpec := specs.get? (Text.fold tagName)

/-- Every spec of `overrides` replaces the spec of the same tag as a whole. -/
def merge (base overrides : TagSpecs) : TagSpecs := SortedMap.override base overrides

/-- The registry of a list of specs. -/
def ofSpecs (specs : List TagSpec) : TagSpecs := .ofList (specs.map fun s => (s.name, s))

end TagSpecs

end TagLint
