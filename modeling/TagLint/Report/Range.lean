import TagLint.Finding
import TagLint.Text.Blank
import TagLint.Text.Lines

/-!
# Ranges — the token a finding points at

The token begins at the finding's column and runs to the next blank or `<` after its first character.  `tokenChars`
gives its bounds in characters of the line; `range` turns them into UTF-16 columns for an editor and `byteSpan` into
byte offsets of the whole text.
-/

namespace TagLint.Report

/-- A line and a UTF-16 column, both counted from zero. -/
structure Position where
  line : Coord
  character : Coord
  deriving DecidableEq, Repr

structure Range where
  start : Position
  stop : Position
  deriving DecidableEq, Repr

/-- Where a token ends. -/
def endsToken (c : Char) : Bool := Text.isBlank c || c = '<'

/-- The bounds, in characters, of the token at a column of a line. -/
def tokenChars (line : List Char) (col : Coord) : Nat × Nat :=
  let start := col.toNat - 1
  let stop := match (line.drop (start + 1)).findIdx? endsToken with
    | some i => start + 1 + i
    | none => line.length
  (start, max stop start)

/-- The UTF-16 column after some characters of a line; past its end each counts one. -/
def utf16Column (line : List Char) (chars : Nat) : Coord :=
  .clamp (Text.units16 (line.take chars) + (chars - line.length))

/-- The range of a finding.  On a line that does not exist it is empty. -/
def range (finding : Finding) (text : List Char) : Range :=
  let line := Coord.satPred finding.line
  match Text.line? text finding.line with
  | none =>
    let p : Position := ⟨line, .satPred finding.col⟩
    ⟨p, p⟩
  | some source =>
    let (start, stop) := tokenChars source.text finding.col
    ⟨⟨line, utf16Column source.text start⟩, ⟨line, utf16Column source.text stop⟩⟩

/-- The byte offsets of the token of a finding, or the end of the text twice. -/
def byteSpan (text : List Char) (finding : Finding) : Nat × Nat :=
  match Text.line? text finding.line with
  | none => (Text.byteLength text, Text.byteLength text)
  | some source =>
    let (start, stop) := tokenChars source.text finding.col
    (source.offset + Text.byteLength (source.text.take start),
      source.offset + Text.byteLength (source.text.take stop))

end TagLint.Report
