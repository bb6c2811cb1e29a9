import TagLint.Binary64

/-!
# Shortest decimals — the fewest digits that read back

A decimal reads back as `w` when it lies between the midpoints to the neighbours of `w`, the midpoints included
when the significand is even.  `shortest` looks at the grids of one digit, two digits and so on; the first grid
with a point in that interval wins, and of two such points the nearer one.
-/

namespace TagLint.Decimal

open Binary64

/-- Digits with the exponent of the first one: `digits = 125`, `exponent = 1` is 12.5. -/
structure Digits where
  digits : Nat
  exponent : Int
  deriving DecidableEq, Repr

/-- A power of ten as a quotient. -/
def tenTo (e : Int) : Nat × Nat := if 0 ≤ e then (Nat.pow 10 e.toNat, 1) else (1, Nat.pow 10 (-e).toNat)

/-- The largest `e` with `10 ^ e ≤ num / den`, searched downwards from `e`. -/
def leadingExponent (num den : Nat) : Nat → Int → Int
  | 0, e => e
  | fuel + 1, e =>
    let (p, q) := tenTo e
    if p * den ≤ num * q then e else leadingExponent num den fuel (e - 1)

/-- Whether `num / den` reads back as the finite word `w`. -/
def readsBack (w num den : Nat) : Bool :=
  let m := significand w
  let e := exponent w - 2
  let (a, b) := if 0 ≤ e then (twoTo e.toNat, 1) else (1, twoTo (-e).toNat)
  let low := if m = twoTo 52 ∧ twoTo 53 ≤ w then 4 * m - 1 else 4 * m - 2
  let high := 4 * m + 2
  let x := num * b
  let l := low * a * den
  let h := high * a * den
  if m % 2 = 0 then l ≤ x && x ≤ h else l < x && x < h

/-- The best decimal for `w` on a grid of the given number of digits. -/
def onGrid? (w : Nat) (lead : Int) (count : Nat) : Option Nat :=
  let (num, den) := toRatio w
  let (p, q) := tenTo (lead + 1 - count)
  let n := num * q / (den * p)
  let back (n : Nat) : Bool := readsBack w (n * p) q
  match back n, back (n + 1) with
  | false, false => none
  | true, false => some n
  | false, true => some (n + 1)
  | true, true =>
    let below := num * q - n * (den * p)
    let above := (n + 1) * (den * p) - num * q
    if below < above ∨ below = above ∧ n % 2 = 0 then some n else some (n + 1)

def dropZeros : Nat → Nat → Nat
  | 0, n => n
  | fuel + 1, n => if n % 10 = 0 ∧ n ≠ 0 then dropZeros fuel (n / 10) else n

/-- The fewest digits that read back as the finite nonzero word `w`. -/
def shortest (w : Nat) : Digits :=
  let (num, den) := toRatio w
  let lead := leadingExponent num den 700 309
  let n := ((List.range 17).findSome? fun k => onGrid? w lead (k + 1)).getD 0
  let d := dropZeros 20 n
  -- a point of the grid may be the next power of ten
  let width := (Nat.toDigits 10 n).length
  let count := ((List.range 17).find? fun k => (onGrid? w lead (k + 1)).isSome).getD 0 + 1
  ⟨d, lead + (width - count : Nat)⟩

/-- A decimal without an exponent, always with a point and a digit on both sides of it. -/
def positional (d : Digits) : List Char :=
  let ds := Nat.toDigits 10 d.digits
  if d.exponent < 0 then ['0', '.'] ++ List.replicate (-d.exponent - 1).toNat '0' ++ ds
  else
    let whole := d.exponent.toNat + 1
    let fraction := ds.drop whole
    ds.take whole ++ List.replicate (whole - ds.length) '0' ++ ['.'] ++ (if fraction.isEmpty then ['0'] else fraction)

end TagLint.Decimal
