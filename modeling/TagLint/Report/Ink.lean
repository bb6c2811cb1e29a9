/-!
# Ink — lines of coloured characters

A line is drawn cell by cell: `write` puts a text at a column, over what stands there, and `elide` takes out a
middle part.  `paint` turns a line into the text that a terminal shows.
-/

namespace TagLint.Report

/-- With or without colours. -/
inductive Style
  | plain
  | styled
  deriving DecidableEq, Repr

/-- The colours of the parts of a snippet. -/
inductive Ink
  | none
  | bold
  /-- Rulers, line numbers and the marks of a cut. -/
  | ruler
  | error
  deriving DecidableEq, Repr

def Ink.start : Ink → String
  | .none => ""
  | .bold => "\x1b[1m"
  | .ruler => "\x1b[1m\x1b[94m"
  | .error => "\x1b[1m\x1b[91m"

/-- A text in a colour. -/
def Style.paint (style : Style) (ink : Ink) (s : String) : String :=
  if style = .plain ∨ ink = .none ∨ s.isEmpty then s else ink.start ++ s ++ "\x1b[0m"

/-- A character with its colour. -/
structure Cell where
  char : Char
  ink : Ink
  deriving DecidableEq, Repr

/-- A line of cells, one for each character whatever its width. -/
abbrev Cells := List Cell

namespace Cells

def ofText (ink : Ink) (text : List Char) : Cells := text.map fun c => ⟨c, ink⟩

def blank (count : Nat) : Cells := List.replicate count ⟨' ', .none⟩

/-- Write a text at a column, over what stands there; a line that does not reach the column is made longer. -/
def write (column : Nat) (ink : Ink) (text : List Char) (line : Cells) : Cells :=
  if text.isEmpty then line
  else line.take column ++ blank (column - line.length) ++ ofText ink text ++ line.drop (column + text.length)

/-- The mark of a cut. -/
def dots : List Char := ['.', '.', '.']

/-- Put the mark of a cut in place of the cells between two columns, if the line has them. -/
def elide (start stop : Nat) (line : Cells) : Cells :=
  if start = stop ∨ line.length < start ∨ line.length < stop then line
  else line.take start ++ ofText .ruler dots ++ line.drop stop

/-- A line as a text: cells of one colour next to each other are painted together. -/
def paint (style : Style) (line : Cells) : String :=
  String.join ((line.splitBy fun a b => a.ink == b.ink).map fun run =>
    style.paint ((run.head?.map (·.ink)).getD .none) (String.ofList (run.map (·.char))))

end Cells

end TagLint.Report
