import TagLint.Finding
import TagLint.SortedMap
import TagLint.Tag.Event
import TagLint.Text.Fold

/-!
# The duplication rule — no attribute name twice on a tag

The first repeat of each name is reported, names in the order of their first occurrence.
-/

namespace TagLint.AttrNoDuplication

/-- The id of the rule. -/
def ruleId : String := "attr-no-duplication"

/-- The tag that may repeat an attribute. -/
def exemptTag : String := "ismodule"

/-- What one pass over the attributes of a tag has noted: their names, in the order in which they were seen first,
and for each of them its first repeat, if there was one. -/
structure Pass where
  firstSeen : List String
  repeats : SortedMap String (Option Attribute)

/-- Before the first attribute. -/
def Pass.start : Pass := ⟨[], .empty⟩

/-- Past one more attribute: its name is new, or it is a repeat, which counts if it is the first one. -/
def Pass.step (pass : Pass) (attr : Attribute) : Pass :=
  match pass.repeats.get? attr.name with
  | none => ⟨pass.firstSeen ++ [attr.name], pass.repeats.insert attr.name none⟩
  | some first? => { pass with repeats := pass.repeats.insert attr.name (first?.or (some attr)) }

/-- The second attribute of each name that occurs at least twice, in the order of the first ones. -/
def repeats (attrs : List Attribute) : List Attribute :=
  let pass := attrs.foldl Pass.step .start
  pass.firstSeen.filterMap fun name => (pass.repeats.get? name).join

def finding (tag : OpenTag) (attr : Attribute) : Finding :=
  .error ruleId ("Duplicate of attribute name [ " ++ attr.name ++ " ] was found.") tag.line (tag.attrCol attr)
    tag.raw

/-- The names that a tag repeats. -/
def checkTag (tag : OpenTag) : List Finding :=
  if Text.sameFolded tag.name exemptTag then [] else (repeats tag.attrs).map (finding tag)

/-- What an event violates. -/
def check : Event → List Finding
  | .openTag tag => checkTag tag
  | _ => []

end TagLint.AttrNoDuplication
