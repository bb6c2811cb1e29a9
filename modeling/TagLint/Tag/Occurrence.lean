import TagLint.Coord

/-!
# Tag occurrences — opening tags with their attributes

An occurrence knows where it stands, how it is written, and where in its own text each attribute begins.  Built
with `OpenTag.new`, `withAttr` and `selfClosing`, its text and offsets agree.
-/

namespace TagLint

/-- An attribute of an opening tag.  `offset` counts the characters from the tag's `<` to the name. -/
structure Attribute where
  name : String
  value : String
  offset : Coord
  deriving DecidableEq, Repr

/-- An opening tag; `col` is the column of its `<`. -/
structure OpenTag where
  name : String
  line : Coord
  col : Coord
  selfClosed : Bool
  attrs : List Attribute
  raw : String
  deriving DecidableEq, Repr

namespace OpenTag

/-- A tag without attributes. -/
def new (name : String) (line col : Coord) : OpenTag :=
  ⟨name, line, col, false, [], "<" ++ name ++ ">"⟩

/-- How the tag ends. -/
def closing (tag : OpenTag) : String := if tag.selfClosed then "/>" else ">"

/-- A text without its last `n` characters. -/
def withoutLast (n : Nat) (s : String) : String := String.ofList (s.toList.take (s.length - n))

/-- The tag with an attribute written after the others. -/
def withAttr (tag : OpenTag) (name value : String) : OpenTag :=
  let body := withoutLast tag.closing.length tag.raw
  { tag with
    attrs := tag.attrs ++ [⟨name, value, .clamp (body.length + 1)⟩]
    raw := body ++ " " ++ name ++ "=\"" ++ value ++ "\"" ++ tag.closing }

/-- The tag written as `<tag/>`. -/
def selfClosing (tag : OpenTag) : OpenTag :=
  if tag.selfClosed then tag
  else { tag with selfClosed := true, raw := withoutLast 1 tag.raw ++ "/>" }

/-- The column of an attribute. -/
def attrCol (tag : OpenTag) (attr : Attribute) : Coord := .satAdd tag.col attr.offset

/-- The attributes of a name, in order. -/
def attrsNamed (tag : OpenTag) (name : String) : List Attribute := tag.attrs.filter (·.name == name)

def hasAttr (tag : OpenTag) (name : String) : Bool := tag.attrs.any (·.name == name)

end OpenTag

end TagLint
