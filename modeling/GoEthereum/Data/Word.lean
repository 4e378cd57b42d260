import Mathlib

/-!
Arithmetic on machine words through unbounded integers.

Code that computes on big integers and truncates afterwards reaches word
results by other routes than a word type does: signed division as a
quotient of magnitudes with a sign put back, sign extension by or-ing the
complement of a low mask, exponentiation by square and multiply over the
exponent's bits. The lemmas here say that each route lands on the
library's notion: `Int.tdiv` and `Int.tmod`, `BitVec.toInt` of a
truncation, `b ^ e` modulo the word size, and a byte picked out by a shift.
-/

namespace GoEthereum.Word

theorem mod_two_pow_succ (e i : Nat) :
    e % 2 ^ (i + 1) = e % 2 ^ i + (if e.testBit i then 2 ^ i else 0) := by
  rw [Nat.mod_pow_succ, Nat.testBit_eq_decide_div_mod_eq]
  rcases Nat.mod_two_eq_zero_or_one (e / 2 ^ i) with h | h <;> simp [h]

/-! ### Signed division through magnitudes -/

/-- Truncating division is the quotient of the magnitudes, negated when
the operands have opposite signs. -/
theorem natAbs_div_mul_sign (a b : Int) :
    ((a.natAbs / b.natAbs : Nat) : Int) * (if a * b < 0 then -1 else 1) = a.tdiv b := by
  rcases a with m | m <;> rcases b with n | n
  · have hnn : ¬(m : Int) * n < 0 := not_lt.mpr (by positivity)
    simp [Int.tdiv, hnn]
  · -- a zero dividend has no sign to put back
    rcases Nat.eq_zero_or_pos m with rfl | hm
    · simp [Int.tdiv]
    · have hneg : (m : Int) * Int.negSucc n < 0 :=
        Int.mul_neg_of_pos_of_neg (by omega) (Int.negSucc_lt_zero n)
      simp [Int.tdiv, hneg]
  · rcases Nat.eq_zero_or_pos n with rfl | hn
    · simp [Int.tdiv]
    · have hneg : Int.negSucc m * n < 0 :=
        Int.mul_neg_of_neg_of_pos (Int.negSucc_lt_zero m) (by omega)
      simp [Int.tdiv, hneg]
  · have hnn : ¬Int.negSucc m * Int.negSucc n < 0 :=
      not_lt.mpr (Int.mul_nonneg_of_nonpos_of_nonpos (Int.negSucc_lt_zero m).le
        (Int.negSucc_lt_zero n).le)
    simp [Int.tdiv, hnn]

/-- Truncating remainder is the remainder of the magnitudes with the
dividend's sign. -/
theorem natAbs_mod_mul_sign (a b : Int) :
    ((a.natAbs % b.natAbs : Nat) : Int) * (if a < 0 then -1 else 1) = a.tmod b := by
  rcases a with m | m <;> rcases b with n | n <;> simp [Int.tmod, Int.negSucc_lt_zero]

/-! ### Masks -/

theorem ldiff_two_pow_sub_one (k n : Nat) :
    Nat.ldiff (2 ^ k - 1) n = 2 ^ k - (n % 2 ^ k + 1) := by
  apply Nat.eq_of_testBit_eq
  intro i
  rw [Nat.testBit_ldiff, Nat.testBit_two_pow_sub_succ (Nat.mod_lt _ (by positivity)),
    Nat.testBit_mod_two_pow, Nat.testBit_two_pow_sub_one]
  by_cases hi : i < k <;> simp [hi]

theorem two_pow_sub_one_eq_natCast (k : Nat) : (2 : Int) ^ k - 1 = ((2 ^ k - 1 : Nat) : Int) := by
  have hone : 1 ≤ 2 ^ k := Nat.one_le_two_pow
  push_cast [hone]
  ring

/-- Or-ing the complement of the low mask sets every bit from `k` up: the
low `k` bits read as a negative number. -/
theorem lor_lnot_mask (n k : Nat) :
    Int.lor (n : Int) (Int.lnot ((2 : Int) ^ k - 1)) = ((n % 2 ^ k : Nat) : Int) - 2 ^ k := by
  have hr : n % 2 ^ k < 2 ^ k := Nat.mod_lt _ (by positivity)
  rw [two_pow_sub_one_eq_natCast]
  show Int.negSucc (Nat.ldiff (2 ^ k - 1) n) = _
  rw [ldiff_two_pow_sub_one, Int.negSucc_eq]
  push_cast [Nat.succ_le_of_lt hr]
  ring

theorem land_mask (n k : Nat) :
    Int.land (n : Int) ((2 : Int) ^ k - 1) = ((n % 2 ^ k : Nat) : Int) := by
  rw [two_pow_sub_one_eq_natCast]
  show ((n &&& (2 ^ k - 1) : Nat) : Int) = _
  rw [Nat.and_two_pow_sub_one_eq_mod]

/-- The two's-complement reading of the low `k + 1` bits: the low `k` bits,
less `2 ^ k` when bit `k` is set. -/
theorem toInt_setWidth_succ {w : Nat} (x k : Nat) (hk : k + 1 ≤ w) :
    ((BitVec.ofNat w x).setWidth (k + 1)).toInt =
      if x.testBit k then ((x % 2 ^ k : Nat) : Int) - 2 ^ k else ((x % 2 ^ k : Nat) : Int) := by
  have hv : ((BitVec.ofNat w x).setWidth (k + 1)).toNat = x % 2 ^ (k + 1) := by
    rw [BitVec.toNat_setWidth, BitVec.toNat_ofNat, Nat.mod_mod_of_dvd]
    exact Nat.pow_dvd_pow 2 hk
  rw [BitVec.toInt_eq_toNat_cond, hv, mod_two_pow_succ]
  have hr : x % 2 ^ k < 2 ^ k := Nat.mod_lt _ (by positivity)
  split <;> split <;> push_cast [pow_succ] at * <;> omega

/-- The byte that a right shift by `s` brings to the bottom. -/
theorem toNat_byte {w : Nat} (x : BitVec w) (s : Nat) (hw : 8 ≤ w) :
    ((x >>> s) &&& 0xff).toNat = x.toNat / 2 ^ s % 256 := by
  rw [BitVec.toNat_and, BitVec.toNat_ushiftRight, Nat.shiftRight_eq_div_pow]
  have hmask : (0xff : BitVec w).toNat = 2 ^ 8 - 1 := by
    show (BitVec.ofNat w 255).toNat = _
    rw [BitVec.toNat_ofNat, Nat.mod_eq_of_lt]
    · rfl
    · calc 0xff < 2 ^ 8 := by decide
        _ ≤ 2 ^ w := Nat.pow_le_pow_right (by decide) hw
  rw [hmask, Nat.and_two_pow_sub_one_eq_mod]

/-! ### Square and multiply -/

/-- One step of square and multiply modulo `M` at bit `i` of the exponent. -/
def sqMul (M e : Nat) (acc : Nat × Nat) (i : Nat) : Nat × Nat :=
  (if e.testBit i then acc.1 * acc.2 % M else acc.1, acc.2 * acc.2 % M)

/-- After the bits below `n`, the accumulator holds `b` to the low `n` bits
of the exponent and the running square holds `b ^ 2 ^ n`, both modulo `M`. -/
theorem foldl_sqMul (M e b n : Nat) (hM : 1 < M) :
    ((List.range n).foldl (sqMul M e) (1, b)).1 = b ^ (e % 2 ^ n) % M ∧
      ((List.range n).foldl (sqMul M e) (1, b)).2 % M = b ^ 2 ^ n % M := by
  induction n with
  | zero => simp [Nat.mod_one, Nat.one_mod_eq_one.mpr (by omega : M ≠ 1)]
  | succ n ih =>
    rw [List.range_succ, List.foldl_append, List.foldl_cons, List.foldl_nil]
    obtain ⟨h₁, h₂⟩ := ih
    generalize (List.range n).foldl (sqMul M e) (1, b) = acc at h₁ h₂
    constructor
    · -- bit n of the exponent decides whether the square joins the product
      rw [sqMul, mod_two_pow_succ]
      split
      · rw [h₁, Nat.mul_mod, Nat.mod_mod, h₂, ← Nat.mul_mod, ← pow_add]
      · simp [h₁]
    · rw [sqMul, Nat.mod_mod, Nat.mul_mod, h₂, ← Nat.mul_mod, ← pow_add, ← two_mul, ← pow_succ']

end GoEthereum.Word
