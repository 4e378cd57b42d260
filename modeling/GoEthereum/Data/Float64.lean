import Mathlib.Tactic

/-!
The conversion of a natural number to a binary64 float, as `float64(n)` does
for an unsigned integer: the nearest value with a significand of 53 bits,
ties to the even significand. Below `2 ^ 53` every number is a float and
the conversion is exact (`roundToFloat64_of_lt`); above, the spacing of the
floats is `2 ^ e` for the `e` low bits that do not fit, and the conversion
never drops below `2 ^ 53` (`le_roundToFloat64`).

A float of integral value converts back to the same integer, so the value
of the float is all that a round trip through `float64` keeps, and it is
what `roundToFloat64` returns.
-/

namespace GoEthereum.Float64

/-- The integral value of the binary64 float nearest to `n`. -/
def roundToFloat64 (n : Nat) : Nat :=
  if n < 2 ^ 53 then n
  else
    -- the low bits beyond the 53 of the significand
    let e := Nat.log2 n - 52
    let q := n / 2 ^ e
    let r := n % 2 ^ e
    if r < 2 ^ (e - 1) ∨ (r = 2 ^ (e - 1) ∧ q % 2 = 0) then q * 2 ^ e else (q + 1) * 2 ^ e

theorem roundToFloat64_of_lt {n : Nat} (h : n < 2 ^ 53) : roundToFloat64 n = n := by
  rw [roundToFloat64, if_pos h]

/-- Rounding keeps a number of at least `2 ^ 53` at least `2 ^ 53`. -/
theorem le_roundToFloat64 {n : Nat} (h : 2 ^ 53 ≤ n) : 2 ^ 53 ≤ roundToFloat64 n := by
  have hn : n ≠ 0 := by positivity
  have hlog : 53 ≤ Nat.log2 n := (Nat.le_log2 hn).mpr h
  obtain ⟨e, he⟩ : ∃ e, e = Nat.log2 n - 52 := ⟨_, rfl⟩
  -- the significand is at least 2 ^ 52, so either rounding keeps 2 ^ 52 * 2 ^ e
  have hq : 2 ^ 52 ≤ n / 2 ^ e := by
    rw [Nat.le_div_iff_mul_le (by positivity), ← pow_add]
    calc 2 ^ (52 + e) = 2 ^ Nat.log2 n := by congr 1; omega
      _ ≤ n := Nat.log2_self_le hn
  have hpow : 2 ^ 53 ≤ 2 ^ 52 * 2 ^ e := by
    rw [← pow_add]
    exact Nat.pow_le_pow_right (by norm_num) (by omega)
  have hlow : 2 ^ 52 * 2 ^ e ≤ n / 2 ^ e * 2 ^ e := Nat.mul_le_mul_right _ hq
  rw [roundToFloat64, if_neg (by omega)]
  dsimp only
  rw [← he]
  split_ifs
  · omega
  · have : n / 2 ^ e * 2 ^ e ≤ (n / 2 ^ e + 1) * 2 ^ e := Nat.mul_le_mul_right _ (by omega)
    omega

/-- The smaller of two rounded numbers is the smaller number when one of
them is below `2 ^ 53`. -/
theorem min_roundToFloat64_of_lt (a : Nat) {e : Nat} (he : e < 2 ^ 53) :
    min (roundToFloat64 a) (roundToFloat64 e) = min a e := by
  rw [roundToFloat64_of_lt he]
  by_cases ha : a < 2 ^ 53
  · rw [roundToFloat64_of_lt ha]
  · have hround := le_roundToFloat64 (Nat.le_of_not_lt ha)
    omega

end GoEthereum.Float64
