/-!
# Binary64 — double-precision numbers by their bits

A number is a sign and a 63-bit magnitude word: eleven exponent bits above 52 fraction bits.  Magnitude words are
ordered like the numbers they stand for.  `ofRatio` rounds a quotient of naturals to the nearest number, a tie
going to the even word; products and quotients are the exact ones, rounded once.
-/

namespace TagLint

structure Binary64 where
  negative : Bool
  magnitude : Nat
  deriving DecidableEq, Repr, Inhabited

namespace Binary64

/-- Powers of two. -/
def twoTo (n : Nat) : Nat := Nat.pow 2 n

/-- The magnitude word of infinity: an exponent field of ones. -/
def infinity : Nat := 2047 * twoTo 52

/-- The quotient to the nearest integer, a tie to the even one. -/
def divNearest (num den : Nat) : Nat :=
  let q := num / den
  let r := num % den
  if 2 * r < den then q
  else if den < 2 * r then q + 1
  else q + q % 2

/-- The exponent of the last fraction bit of a positive quotient: 52 below its leading bit, never below -1074. -/
def lastBit (num den : Nat) : Int :=
  let e : Int := (num.log2 : Int) - (den.log2 : Int)
  let below := if 0 ≤ e then num < den * twoTo e.toNat else num * twoTo (-e).toNat < den
  max ((if below then e - 1 else e) - 52) (-1074)

/-- The magnitude word nearest to `num / den`, `infinity` when the quotient is too large. -/
def ofRatio (num den : Nat) : Nat :=
  if num = 0 then 0
  else
    let q := lastBit num den
    let m := if 0 ≤ q then divNearest num (den * twoTo q.toNat) else divNearest (num * twoTo (-q).toNat) den
    min ((q + 1074).toNat * twoTo 52 + m) infinity

/-- A finite magnitude word is the number `significand · 2 ^ exponent`. -/
def significand (w : Nat) : Nat := if w < twoTo 52 then w else w % twoTo 52 + twoTo 52

def exponent (w : Nat) : Int := if w < twoTo 52 then -1074 else (w / twoTo 52 : Nat) - 1075

/-- A finite magnitude word as a quotient of naturals. -/
def toRatio (w : Nat) : Nat × Nat :=
  if 0 ≤ exponent w then (significand w * twoTo (exponent w).toNat, 1)
  else (significand w, twoTo (-exponent w).toNat)

/-- The rounded product of two finite magnitudes. -/
def mul (a b : Nat) : Nat :=
  let (x, y) := toRatio a
  let (z, w) := toRatio b
  ofRatio (x * z) (y * w)

/-- The rounded quotient of two finite magnitudes. -/
def div (a b : Nat) : Nat :=
  let (x, y) := toRatio a
  let (z, w) := toRatio b
  ofRatio (x * w) (y * z)

/-- Greater than zero. -/
def isPositive (x : Binary64) : Bool := !x.negative && x.magnitude != 0

/-- The 64 bits, sign first. -/
def bits (x : Binary64) : Nat := (if x.negative then twoTo 63 else 0) + x.magnitude

end Binary64

end TagLint
