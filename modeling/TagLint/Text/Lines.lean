import TagLint.Coord
import TagLint.Text.Units

/-!
# Lines — a text cut after its line feeds

A line has the byte offset at which it begins, and its text without the line feed and without a carriage return
before that or at the end.
-/

namespace TagLint.Text

/-- The text cut after every line feed. -/
def pieces : List Char → List (List Char)
  | [] => []
  | c :: cs =>
    if c = '\n' then [c] :: pieces cs
    else
      match pieces cs with
      | [] => [[c]]
      | p :: ps => (c :: p) :: ps

/-- Nothing is lost by cutting. -/
theorem flatten_pieces (cs : List Char) : (pieces cs).flatten = cs := by
  induction cs with
  | nil => rfl
  | cons c cs ih =>
    rw [pieces]
    split
    · simp [ih]
    · split
      · rename_i h
        rw [h] at ih
        simp at ih
        simp [← ih]
      · rename_i h
        rw [h] at ih
        simpa using ih

/-- A text without one last `c`. -/
def dropEnd (c : Char) (cs : List Char) : List Char :=
  if cs.getLast? = some c then cs.dropLast else cs

/-- A line and the byte offset at which it begins. -/
structure Line where
  offset : Nat
  text : List Char
  deriving DecidableEq, Repr

/-- The lines of consecutive pieces, the first of which begins at `offset`. -/
def linesFrom (offset : Nat) : List (List Char) → List Line
  | [] => []
  | p :: ps => ⟨offset, dropEnd '\r' (dropEnd '\n' p)⟩ :: linesFrom (offset + byteLength p) ps

/-- The lines of a text. -/
def lines (text : List Char) : List Line := linesFrom 0 (pieces text)

/-- A line of a text, counted from one. -/
def line? (text : List Char) (number : Coord) : Option Line :=
  if number = 0 then none else (lines text)[number.toNat - 1]?

end TagLint.Text
