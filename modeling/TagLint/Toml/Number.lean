import TagLint.Decimal.Nearest
import TagLint.Text.Split
import TagLint.Toml.DateTime
import TagLint.Toml.Value

/-!
# Numbers in TOML

Integers have 64 bits and may be written in another base; floats are rounded to the nearest double.  Single
underscores may stand between digits.
-/

namespace TagLint.Toml

/-- The digits of a number without the underscores between them. -/
def digits? (base : Nat) (cs : List Char) : Option (List Nat) :=
  let groups := Text.splitAt '_' cs
  if groups.any List.isEmpty then none else groups.flatten.mapM (digitIn? base)

/-- A zero stands in front of other digits. -/
def hasLeadingZero : List Nat → Bool
  | 0 :: _ :: _ => true
  | _ => false

/-- Whether the number is negative, and the text after its sign. -/
def splitSign : List Char → Bool × List Char
  | '-' :: cs => (true, cs)
  | '+' :: cs => (false, cs)
  | cs => (false, cs)

/-- The integer, when it has 64 bits. -/
def inRange? (n : Int) : Option Int :=
  if -9223372036854775808 ≤ n ∧ n ≤ 9223372036854775807 then some n else none

def readInteger (cs : List Char) : Option Int :=
  match cs with
  | '0' :: 'x' :: cs => (digits? 16 cs).bind fun ds => inRange? (valueIn 16 ds)
  | '0' :: 'o' :: cs => (digits? 8 cs).bind fun ds => inRange? (valueIn 8 ds)
  | '0' :: 'b' :: cs => (digits? 2 cs).bind fun ds => inRange? (valueIn 2 ds)
  | cs => do
    let (negative, cs) := splitSign cs
    let ds ← digits? 10 cs
    let n : Int := valueIn 10 ds
    if hasLeadingZero ds then none else inRange? (if negative then -n else n)

/-- The digits after the point, if there is one. -/
def readFractionDigits : List Char → Option (List Nat × List Char)
  | '.' :: cs =>
    let isPart (c : Char) : Bool := c.isDigit || c = '_'
    (digits? 10 (cs.takeWhile isPart)).map fun ds => (ds, cs.dropWhile isPart)
  | cs => some ([], cs)

/-- The exponent that the rest of a float is. -/
def readExponent : List Char → Option Int
  | [] => some 0
  | c :: cs => do
    let (negative, cs) := splitSign cs
    let ds ← digits? 10 cs
    let n : Int := valueIn 10 ds
    if c = 'e' ∨ c = 'E' then some (if negative then -n else n) else none

/-- A float has a point or an exponent, and is not too large. -/
def readFloat (cs : List Char) : Option Toml := do
  let (negative, cs) := splitSign cs
  if cs = ['i', 'n', 'f'] then some (.infinite negative)
  else if cs = ['n', 'a', 'n'] then some .notANumber
  else
    let isPart (c : Char) : Bool := c.isDigit || c = '_'
    let whole ← digits? 10 (cs.takeWhile isPart)
    let tail := cs.dropWhile isPart
    let (fraction, rest) ← readFractionDigits tail
    let exponent ← readExponent rest
    let magnitude := Decimal.nearest (valueIn 10 (whole ++ fraction)) (exponent - fraction.length)
    if tail.isEmpty ∨ hasLeadingZero whole ∨ magnitude = Binary64.infinity then none
    else some (.float ⟨negative, magnitude⟩)

/-- The value that is written without quotes and brackets. -/
def readScalar (cs : List Char) : Option Toml :=
  if cs = ['t', 'r', 'u', 'e'] then some (.bool true)
  else if cs = ['f', 'a', 'l', 's', 'e'] then some (.bool false)
  else
    match readInteger cs, DateTime.canonical? cs with
    | some n, _ => some (.integer n)
    | none, some spelling => some (.text (String.ofList spelling))
    | none, none => readFloat cs

end TagLint.Toml
