import TagLint.Binary64

/-!
# Nearest — the double nearest to a decimal number
-/

namespace TagLint.Decimal

/-- The magnitude word nearest to `n · 10 ^ e`, infinity when it is too large.  Numbers far outside the range of
doubles are settled by their number of digits. -/
def nearest (n : Nat) (e : Int) : Nat :=
  let size := e + (Nat.toDigits 10 n).length
  if n = 0 ∨ size < -330 then 0
  else if 310 < size then Binary64.infinity
  else if 0 ≤ e then Binary64.ofRatio (n * Nat.pow 10 e.toNat) 1
  else Binary64.ofRatio n (Nat.pow 10 (-e).toNat)

end TagLint.Decimal
