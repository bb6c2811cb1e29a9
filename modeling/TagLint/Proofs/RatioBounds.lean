import Mathlib.Algebra.Order.Field.Power
import Mathlib.Data.Rat.Cast.Order
import Mathlib.Tactic.Ring
import TagLint.Binary64

/-!
# Ratio bounds — how large a rounded quotient is

* `lt_two_zpow_leading`: rounding starts from an exponent that bounds the quotient, and that is no larger than another
  bound makes it (`leading_lt`).
* **`ofRatio_le`**: a quotient below `2 ^ K` is rounded to a word up to the one for `2 ^ K`.
* `toRatio_le`: the words up to that one stand for quotients up to `2 ^ K`.
* `div_le`: so dividing by more than one stays below the bound.
-/

namespace TagLint.Binary64

/-- The magnitude word of `2 ^ K`. -/
def powerWord (K : ℕ) : ℕ := (K + 1023) * twoTo 52

variable {num den K : ℕ} {e q : ℤ}

theorem twoTo_pos (n : ℕ) : 0 < twoTo n := Nat.two_pow_pos n

theorem cast_twoTo (n : ℕ) : ((twoTo n : ℕ) : ℚ) = 2 ^ (n : ℤ) := by
  show ((2 ^ n : ℕ) : ℚ) = 2 ^ (n : ℤ)
  push_cast
  rfl

/-- Naturals compare a quotient with a power of two by the sign of its exponent. -/
theorem lt_mul_zpow_iff : (num : ℚ) < den * 2 ^ e ↔
    if 0 ≤ e then num < den * twoTo e.toNat else num * twoTo (-e).toNat < den := by
  split_ifs with he
  · rw [← Nat.cast_lt (α := ℚ), Nat.cast_mul, cast_twoTo, Int.toNat_of_nonneg he]
  · have hpos : (0 : ℚ) < 2 ^ (-e) := zpow_pos two_pos _
    rw [← Nat.cast_lt (α := ℚ), Nat.cast_mul, cast_twoTo, Int.toNat_of_nonneg (by omega),
      ← mul_lt_mul_iff_left₀ hpos, mul_assoc, ← zpow_add₀ two_ne_zero, add_neg_cancel, zpow_zero, mul_one]

/-! ## The leading exponent -/

/-- The exponent of the leading bit of a positive quotient. -/
def leading (num den : ℕ) : ℤ :=
  let e : ℤ := (num.log2 : ℤ) - (den.log2 : ℤ)
  let below := if 0 ≤ e then num < den * twoTo e.toNat else num * twoTo (-e).toNat < den
  if below then e - 1 else e

theorem lastBit_eq (num den : ℕ) : lastBit num den = max (leading num den - 52) (-1074) := rfl

theorem lt_two_zpow_log2 (n : ℕ) : (n : ℚ) < 2 ^ ((n.log2 : ℤ) + 1) := by
  exact_mod_cast Nat.lt_log2_self (n := n)

theorem two_zpow_log2_le {n : ℕ} (hn : 0 < n) : (2 : ℚ) ^ (n.log2 : ℤ) ≤ n := by
  exact_mod_cast Nat.log2_self_le hn.ne'

/-- The exponents of the leading bits of both numbers settle it, up to one comparison. -/
theorem leading_cases (num den : ℕ) :
    leading num den = (num.log2 : ℤ) - den.log2 - 1 ∧ (num : ℚ) < den * 2 ^ ((num.log2 : ℤ) - den.log2) ∨
    leading num den = (num.log2 : ℤ) - den.log2 ∧ (den : ℚ) * 2 ^ ((num.log2 : ℤ) - den.log2) ≤ num := by
  rw [← not_lt, lt_mul_zpow_iff]
  unfold leading
  generalize (num.log2 : ℤ) - den.log2 = e
  dsimp only
  by_cases hbelow : if 0 ≤ e then num < den * twoTo e.toNat else num * twoTo (-e).toNat < den
  · exact .inl ⟨if_pos hbelow, hbelow⟩
  · exact .inr ⟨if_neg hbelow, hbelow⟩

theorem lt_two_zpow_leading (num : ℕ) (hden : 0 < den) : (num : ℚ) < den * 2 ^ (leading num den + 1) := by
  obtain ⟨hlead, hlt⟩ | ⟨hlead, -⟩ := leading_cases num den
  · rw [hlead, sub_add_cancel]
    exact hlt
  · rw [hlead]
    calc (num : ℚ) < 2 ^ ((num.log2 : ℤ) + 1) := lt_two_zpow_log2 num
      _ = 2 ^ (den.log2 : ℤ) * 2 ^ ((num.log2 : ℤ) - den.log2 + 1) := by
        rw [← zpow_add₀ two_ne_zero]
        congr 1
        omega
      _ ≤ den * 2 ^ ((num.log2 : ℤ) - den.log2 + 1) :=
        mul_le_mul_of_nonneg_right (two_zpow_log2_le hden) (zpow_pos two_pos _).le

theorem leading_lt (hnum : 0 < num) (hden : 0 < den) (h : num < den * 2 ^ K) : leading num den < K := by
  have hcast : (num : ℚ) < den * 2 ^ (K : ℤ) := by exact_mod_cast h
  obtain ⟨hlead, -⟩ | ⟨hlead, hle⟩ := leading_cases num den
  · have hlog : (2 : ℚ) ^ (num.log2 : ℤ) < 2 ^ ((den.log2 : ℤ) + 1 + K) :=
      calc (2 : ℚ) ^ (num.log2 : ℤ) ≤ num := two_zpow_log2_le hnum
        _ < den * 2 ^ (K : ℤ) := hcast
        _ ≤ 2 ^ ((den.log2 : ℤ) + 1) * 2 ^ (K : ℤ) :=
          mul_le_mul_of_nonneg_right (lt_two_zpow_log2 den).le (zpow_pos two_pos _).le
        _ = 2 ^ ((den.log2 : ℤ) + 1 + K) := (zpow_add₀ two_ne_zero _ _).symm
    have hexp := (zpow_lt_zpow_iff_right₀ one_lt_two).mp hlog
    omega
  · have hpos : (0 : ℚ) < den := Nat.cast_pos.mpr hden
    have hlt := lt_of_mul_lt_mul_left (hle.trans_lt hcast) hpos.le
    rw [hlead]
    exact (zpow_lt_zpow_iff_right₀ one_lt_two).mp hlt

/-! ## Rounding -/

theorem divNearest_le {a b c : ℕ} (h : a < b * c) : divNearest a b ≤ c := by
  have hq : a / b < c := Nat.div_lt_of_lt_mul h
  unfold divNearest
  dsimp only
  split_ifs
  · exact hq.le
  · exact hq
  · have hbit := Nat.mod_lt (a / b) two_pos
    omega

/-- The digits of a quotient from the exponent `q` on, rounded. -/
def digitsFrom (num den : ℕ) (q : ℤ) : ℕ :=
  if 0 ≤ q then divNearest num (den * twoTo q.toNat) else divNearest (num * twoTo (-q).toNat) den

theorem digitsFrom_le (h : (num : ℚ) < den * 2 ^ (q + 53)) : digitsFrom num den q ≤ twoTo 53 := by
  rw [zpow_add₀ two_ne_zero] at h
  unfold digitsFrom
  split_ifs with hq
  · apply divNearest_le
    rw [← Nat.cast_lt (α := ℚ), Nat.cast_mul, Nat.cast_mul, cast_twoTo, cast_twoTo, Int.toNat_of_nonneg hq, mul_assoc]
    exact h
  · apply divNearest_le
    have hpos : (0 : ℚ) < 2 ^ (-q) := zpow_pos two_pos _
    have hcancel : (2 : ℚ) ^ q * 2 ^ (-q) = 1 := by rw [← zpow_add₀ two_ne_zero, add_neg_cancel, zpow_zero]
    rw [← Nat.cast_lt (α := ℚ), Nat.cast_mul, Nat.cast_mul, cast_twoTo, cast_twoTo, Int.toNat_of_nonneg (by omega)]
    calc (num : ℚ) * 2 ^ (-q) < den * (2 ^ q * 2 ^ (53 : ℤ)) * 2 ^ (-q) := mul_lt_mul_of_pos_right h hpos
      _ = den * 2 ^ (53 : ℤ) * (2 ^ q * 2 ^ (-q)) := by ring
      _ = den * 2 ^ ((53 : ℕ) : ℤ) := by
        rw [hcancel, mul_one]
        rfl

/-- **A bounded quotient is rounded to a bounded word.** -/
theorem ofRatio_le (h : num < den * 2 ^ K) : ofRatio num den ≤ powerWord K := by
  rw [ofRatio]
  split_ifs with hzero
  · exact Nat.zero_le _
  · have hden : 0 < den := by
      rcases Nat.eq_zero_or_pos den with rfl | hden
      · simp at h
      · exact hden
    have hlead := leading_lt (Nat.pos_of_ne_zero hzero) hden h
    have hq := lastBit_eq num den
    have hdigits : digitsFrom num den (lastBit num den) ≤ twoTo 53 := by
      apply digitsFrom_le
      apply (lt_two_zpow_leading num hden).trans_le
      have hexp : leading num den + 1 ≤ lastBit num den + 53 := by omega
      exact mul_le_mul_of_nonneg_left (zpow_le_zpow_right₀ one_le_two hexp) (Nat.cast_nonneg den)
    have hplace : (lastBit num den + 1074).toNat ≤ K + 1021 := by omega
    have hword : (lastBit num den + 1074).toNat * twoTo 52 ≤ (K + 1021) * twoTo 52 := Nat.mul_le_mul_right _ hplace
    apply (Nat.min_le_left _ _).trans
    calc (lastBit num den + 1074).toNat * twoTo 52 + digitsFrom num den (lastBit num den)
        ≤ (K + 1021) * twoTo 52 + 2 * twoTo 52 := Nat.add_le_add hword hdigits
      _ = powerWord K := (Nat.add_mul _ _ _).symm

theorem ofRatio_le_infinity (num den : ℕ) : ofRatio num den ≤ infinity := by
  rw [ofRatio]
  split_ifs
  · exact Nat.zero_le _
  · exact Nat.min_le_right _ _

/-! ## Words as quotients -/

theorem toRatio_snd_pos (w : ℕ) : 0 < (toRatio w).2 := by
  rw [toRatio]
  split_ifs
  · exact Nat.one_pos
  · exact twoTo_pos _

/-- The significand of a bounded word fits the places that its exponent leaves. -/
theorem exists_significand_le {w : ℕ} (h : w ≤ powerWord K) : ∃ s : ℕ, significand w ≤ 2 ^ s ∧ s + exponent w ≤ K := by
  rw [powerWord] at h
  rw [significand, exponent]
  have hdiv := Nat.div_add_mod w (twoTo 52)
  have hmod := Nat.mod_lt w (twoTo_pos 52)
  have htop : w / twoTo 52 ≤ K + 1023 := Nat.div_le_of_le_mul (by rwa [Nat.mul_comm])
  split_ifs with hsmall
  · exact ⟨52, hsmall.le, by omega⟩
  · rcases htop.lt_or_eq with hbelow | htop
    · refine ⟨53, ?_, by omega⟩
      show w % twoTo 52 + twoTo 52 ≤ twoTo 52 + twoTo 52
      omega
    · -- nothing is left for the fraction
      rw [htop, Nat.mul_comm] at hdiv
      refine ⟨52, ?_, by omega⟩
      show w % twoTo 52 + twoTo 52 ≤ twoTo 52
      omega

theorem toRatio_le {w : ℕ} (h : w ≤ powerWord K) : (toRatio w).1 ≤ (toRatio w).2 * 2 ^ K := by
  obtain ⟨s, hsig, hexp⟩ := exists_significand_le h
  rw [toRatio]
  split_ifs with he
  · calc significand w * 2 ^ (exponent w).toNat ≤ 2 ^ s * 2 ^ (exponent w).toNat := Nat.mul_le_mul_right _ hsig
      _ = 2 ^ (s + (exponent w).toNat) := (Nat.pow_add 2 _ _).symm
      _ ≤ 2 ^ K := Nat.pow_le_pow_right two_pos (by omega)
      _ = 1 * 2 ^ K := (Nat.one_mul _).symm
  · calc significand w ≤ 2 ^ s := hsig
      _ ≤ 2 ^ ((-exponent w).toNat + K) := Nat.pow_le_pow_right two_pos (by omega)
      _ = 2 ^ (-exponent w).toNat * 2 ^ K := Nat.pow_add 2 _ _

theorem div_le {f p : ℕ} (hf : f ≤ powerWord K) (hp : (toRatio p).2 < (toRatio p).1) : div f p ≤ powerWord K := by
  apply ofRatio_le
  have hle := toRatio_le hf
  have hpos := toRatio_snd_pos f
  calc (toRatio f).1 * (toRatio p).2 ≤ (toRatio f).2 * 2 ^ K * (toRatio p).2 := Nat.mul_le_mul_right _ hle
    _ < (toRatio f).2 * 2 ^ K * (toRatio p).1 := Nat.mul_lt_mul_of_pos_left hp (Nat.mul_pos hpos (Nat.two_pow_pos K))
    _ = (toRatio f).2 * (toRatio p).1 * 2 ^ K := Nat.mul_right_comm _ _ _

end TagLint.Binary64
