import TagLint.Report.Range
import TagLint.Report.Window

/-!
# Snippets — findings as a terminal shows them

A snippet is a title, a place, and the line of the place with carets under the token.  A line that is too wide is
cut to a window around the token; what is cut off is marked by dots.
-/

namespace TagLint.Report

/-! ## The line of a byte offset -/

/-- A line of a text, from its first byte to the first byte after its terminator. -/
structure Row where
  number : Nat
  start : Nat
  stop : Nat
  text : List Char

/-- A carriage return belongs to the terminator only before a line feed. -/
def rowText (piece : List Char) : List Char :=
  if piece.getLast? = some '\n' then Text.dropEnd '\r' piece.dropLast else piece

def rowsFrom (number offset : Nat) : List (List Char) → List Row
  | [] => []
  | p :: ps =>
    let stop := offset + Text.byteLength p
    ⟨number, offset, stop, rowText p⟩ :: rowsFrom (number + 1) stop ps

/-- The row of a byte offset; the last row, if none holds it. -/
def rowAt (text : List Char) (offset : Nat) : Row :=
  let rows := rowsFrom 1 0 (Text.pieces text)
  match rows.find? fun r => r.start ≤ offset && offset < r.stop with
  | some r => r
  | none => rows.getLast?.getD ⟨1, 0, 0, []⟩

/-- The characters in the first `bytes` bytes. -/
def takeBytes : Nat → List Char → List Char
  | _, [] => []
  | bytes, c :: cs => if c.utf8Size ≤ bytes then c :: takeBytes (bytes - c.utf8Size) cs else []

/-- The place of a byte offset in its row: characters, and display columns. -/
structure Column where
  chars : Nat
  shown : Nat

/-- An offset inside the terminator of a row is one character after its text. -/
def Row.column (row : Row) (offset : Nat) : Column :=
  let before := takeBytes (offset - row.start) row.text
  let beyond := if Text.byteLength row.text < offset - row.start then 1 else 0
  ⟨before.length + beyond, Text.widthOf before⟩

/-- The number of the last line that begins before a byte offset, at least one. -/
def lastNumberBefore (text : List Char) (offset : Nat) : Nat := max 1 (Text.pieces (takeBytes offset text)).length

/-! ## Rendering -/

/-- Every character as a terminal shows it. -/
def showText (cs : List Char) : List Char := cs.flatMap Text.shown

/-- The title, its further lines under the first one. -/
def titleLines (finding : Finding) : List Cells :=
  let label := "error[".toList ++ finding.ruleId.toList ++ [']']
  let indent := Cells.blank (Text.widthOf label + 2)
  let message := finding.message.toList
  let lines := (Text.pieces message).map (Text.dropEnd '\n')
  let lines := if message.isEmpty || message.getLast? = some '\n' then lines ++ [[]] else lines
  match lines with
  | [] => []
  | first :: more =>
    (Cells.ofText .error label ++ Cells.ofText .bold ([':', ' '] ++ showText first))
      :: more.map fun m => indent ++ Cells.ofText .bold (showText m)

/-- A line of the margin beside the text. -/
def rule (gutter : Nat) : Cells := Cells.write (gutter + 1) .ruler ['|'] []

/-- The line with the place of a finding. -/
def placeLine (gutter : Nat) (path : String) (number column : Nat) : Cells :=
  Cells.blank gutter ++ Cells.ofText .ruler "--> ".toList
    ++ Cells.ofText .none (path ++ ":" ++ toString number ++ ":" ++ toString column).toList

/-- A source line with its number, and the line with the carets under the display columns from `start` to `stop`. -/
def sourceLines (gutter number : Nat) (line : List Char) (start stop : Nat) : List Cells :=
  let column := gutter + 3
  let room := terminalWidth - column
  let w := window room (indentation line) (Text.widthOf line) start stop
  let (code, left) := cut room w column (showText line)
  let code := (code.write 0 .ruler (toString number).toList).write (gutter + 1) .ruler ['|']
  let carets := (rule gutter).write (column + start - left) .error (List.replicate (stop - start) '^')
  let shorten (line : Cells) : Cells :=
    if isOverlong room (stop - start) then
      line.elide (column + start + keptColumns room - left) (column + stop - keptColumns room - left)
    else line
  [shorten code, shorten carets]

/-- The lines of a finding in the text it was found in. -/
def drawing (source path : String) (finding : Finding) : List Cells :=
  let text := source.toList
  let (low, high) := byteSpan text finding
  let row := rowAt text low
  let start := row.column low
  let stop := max (start.shown + 1) (if low = high then 0 else (row.column high).shown)
  let gutter := (toString (lastNumberBefore text high)).length
  titleLines finding ++ [placeLine gutter path row.number (start.chars + 1), rule gutter]
    ++ sourceLines gutter row.number row.text start.shown stop

/-- A finding as a snippet of the text it was found in. -/
def render (style : Style) (source path : String) (finding : Finding) : String :=
  String.intercalate "\n" ((drawing source path finding).map (Cells.paint style))

end TagLint.Report
