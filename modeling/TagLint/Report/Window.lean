import TagLint.Report.Ink
import TagLint.Text.Blank
import TagLint.Text.Width

/-!
# Windows — the part of a wide line that is shown

A line that is too wide is cut to a window around the token, and marks stand where something was cut off.  A token
that is itself much too wide loses its middle.
-/

namespace TagLint.Report

/-- Columns of a terminal. -/
def terminalWidth : Nat := 140

/-- Columns kept free on both sides of the token, for the marks of a cut. -/
def margin : Nat := 6

/-- The first and the last display column that are shown. -/
structure Window where
  left : Nat
  right : Nat
  deriving DecidableEq, Repr

/-- Columns of leading white space; none on a blank line. -/
def indentation (line : List Char) : Nat :=
  if line.all Text.isBlank then 0
  else Text.total (fun c => if c = '\t' then 4 else 1) (line.takeWhile Text.isBlank)

/-- The window of a line of a width, for a token between two columns, when `room` columns can be shown: the whole
line, or from the indentation on, or centred on the token, or the token alone. -/
def window (room indent width start stop : Nat) : Window :=
  let indent := min indent start - margin
  let first := start - margin
  let last := stop + margin
  let left := if 20 < indent then indent - 16 else 0
  let right := max width left
  if right - left ≤ room then ⟨left, right⟩
  else if indent ≤ last ∧ last - indent ≤ room then ⟨indent, indent + room⟩
  else if last - first ≤ room then
    let left := first - (room - (last - first)) / 2
    ⟨left, left + room⟩
  else ⟨first, last⟩

/-- What is left after the characters that begin before a column, and the columns by which they go beyond it. -/
def skipColumns : Nat → List Char → List Char × Nat
  | _, [] => ([], 0)
  | columns, c :: cs =>
    if columns = 0 then (c :: cs, 0)
    else if columns ≤ Text.width c then (cs, Text.width c - columns)
    else skipColumns (columns - Text.width c) cs

/-- The longest start that fits into some columns. -/
def takeColumns : Nat → List Char → List Char
  | _, [] => []
  | columns, c :: cs =>
    if Text.width c ≤ columns then c :: takeColumns (columns - Text.width c) cs else []

/-- The shortest start that fills some columns. -/
def fillColumns : Nat → List Char → List Char
  | _, [] => []
  | 0, _ => []
  | columns, c :: cs => c :: fillColumns (columns - Text.width c) cs

/-- A line written from a column on and cut to a window, with the display column of the text that comes first. -/
def cut (room : Nat) (w : Window) (column : Nat) (line : List Char) : Cells × Nat :=
  let width := Text.widthOf line
  let left := min w.left width
  let right := if width - w.left ≤ room then width else min width w.right
  let (rest, beyond) := skipColumns left line
  let code := takeColumns (right - left) rest
  let hidden := if w.left = 0 then [] else fillColumns Cells.dots.length code
  let body := code.drop hidden.length
  let start := column + Text.widthOf hidden
  let tail := (fillColumns Cells.dots.length code.reverse).length
  let cells := Cells.write start .none body <|
    if w.left = 0 then [] else Cells.write column .ruler Cells.dots []
  (if right < width then cells.write (start + body.length - tail) .ruler Cells.dots else cells, left + beyond)

/-- A token this much too wide keeps only its ends. -/
def isOverlong (room width : Nat) : Bool := room * 2 < width && 10 < width

/-- The columns that an overlong token keeps at both ends. -/
def keptColumns (room : Nat) : Nat := max (room / 3) 5

end TagLint.Report
