/-!
# Coordinates — 32-bit lines, columns and offsets

All coordinates are 32-bit counts, and arithmetic on them stops at the ends of the range instead of wrapping.
-/

namespace TagLint

/-- A line, a column, an offset or a limit. -/
abbrev Coord := UInt32

namespace Coord

/-- The largest coordinate. -/
def last : Coord := 4294967295

/-- The coordinate nearest to a count. -/
def clamp (n : Nat) : Coord := if n < UInt32.size then UInt32.ofNat n else last

/-- Addition that stops at the largest coordinate. -/
def satAdd (a b : Coord) : Coord := clamp (a.toNat + b.toNat)

/-- The coordinate before, or zero. -/
def satPred (a : Coord) : Coord := clamp (a.toNat - 1)

theorem toNat_clamp (n : Nat) : (clamp n).toNat = min n 4294967295 := by
  unfold clamp
  split
  case isTrue h =>
    have : n < 4294967296 := h
    rw [UInt32.toNat_ofNat_of_lt' h]
    omega
  case isFalse h =>
    have : ¬ n < 4294967296 := h
    have hl : last.toNat = 4294967295 := rfl
    omega

@[simp] theorem toNat_satAdd (a b : Coord) : (satAdd a b).toNat = min (a.toNat + b.toNat) 4294967295 :=
  toNat_clamp _

@[simp] theorem toNat_satPred (a : Coord) : (satPred a).toNat = a.toNat - 1 := by
  have : a.toNat < 4294967296 := a.toNat_lt
  rw [satPred, toNat_clamp]
  omega

end Coord

end TagLint
