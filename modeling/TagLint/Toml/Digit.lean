/-!
# Digits — numbers in a base up to sixteen
-/

namespace TagLint.Toml

/-- The value of a digit in a base up to sixteen. -/
def digitIn? (base : Nat) (c : Char) : Option Nat :=
  let value? :=
    if c.isDigit then some (c.toNat - '0'.toNat)
    else if 'a' ≤ c ∧ c ≤ 'f' then some (c.toNat - 'a'.toNat + 10)
    else if 'A' ≤ c ∧ c ≤ 'F' then some (c.toNat - 'A'.toNat + 10)
    else none
  value?.filter (· < base)

/-- The number that digits spell in a base. -/
def valueIn (base : Nat) (ds : List Nat) : Nat := ds.foldl (fun n d => base * n + d) 0

end TagLint.Toml
