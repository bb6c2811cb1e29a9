import TagLint.Tag.Occurrence

/-!
# Events — what a template consists of, in source order
-/

namespace TagLint

/-- Text, a comment or character data. -/
structure Chunk where
  line : Coord
  col : Coord
  raw : String
  deriving DecidableEq, Repr

/-- A closing tag. -/
structure CloseTag where
  name : String
  line : Coord
  col : Coord
  raw : String
  deriving DecidableEq, Repr

/-- A piece of a template. -/
inductive Event
  | openTag (tag : OpenTag)
  | text (chunk : Chunk)
  | comment (chunk : Chunk)
  | cdata (chunk : Chunk)
  | closeTag (tag : CloseTag)
  deriving DecidableEq, Repr

namespace Event

def line : Event → Coord
  | .openTag tag => tag.line
  | .text chunk | .comment chunk | .cdata chunk => chunk.line
  | .closeTag tag => tag.line

def col : Event → Coord
  | .openTag tag => tag.col
  | .text chunk | .comment chunk | .cdata chunk => chunk.col
  | .closeTag tag => tag.col

def raw : Event → String
  | .openTag tag => tag.raw
  | .text chunk | .comment chunk | .cdata chunk => chunk.raw
  | .closeTag tag => tag.raw

end Event

end TagLint
