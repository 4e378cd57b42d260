import Mathlib.Tactic

/-!
Big-endian byte strings of natural numbers. `bytes n x` is the `n`
low-order bytes of `x`, most significant first, and `value` reads a byte
string back. `width x` is the least number of bytes that holds `x` (one for
zero), so `bytes (width x) x` is the minimal encoding: its first byte is
nonzero unless `x = 0`. A machine word of `w` bytes is a number below
`256 ^ w`, which is how the fixed-width cases enter below.
-/

namespace GoEthereum.BigEndian

/-- The `n` low-order bytes of `x`, most significant first. -/
def bytes : Nat → Nat → List UInt8
  | 0, _ => []
  | n + 1, x => bytes n (x / 256) ++ [(x % 256).toUInt8]

/-- The big-endian value of a byte string. -/
def value (bs : List UInt8) : Nat :=
  bs.foldl (fun acc b => acc * 256 + b.toNat) 0

/-- The number of bytes of the minimal big-endian encoding, at least one. -/
def width (x : Nat) : Nat :=
  if x < 256 then 1 else width (x / 256) + 1

/-- The minimal big-endian encoding with no byte at all for zero. -/
def minimal (x : Nat) : List UInt8 :=
  if x = 0 then [] else bytes (width x) x

@[simp] theorem length_bytes (n x : Nat) : (bytes n x).length = n := by
  induction n generalizing x with
  | zero => rfl
  | succ n ih => simp [bytes, ih]

private theorem foldl_value (bs : List UInt8) (acc : Nat) :
    bs.foldl (fun acc b => acc * 256 + b.toNat) acc =
      acc * 256 ^ bs.length + value bs := by
  induction bs generalizing acc with
  | nil => simp [value]
  | cons b bs ih =>
      simp only [List.foldl_cons, value, List.length_cons]
      rw [ih, ih (0 * 256 + b.toNat)]
      ring

@[simp] theorem value_nil : value [] = 0 := rfl

theorem value_append (xs ys : List UInt8) :
    value (xs ++ ys) = value xs * 256 ^ ys.length + value ys := by
  rw [value, List.foldl_append, foldl_value]
  rfl

theorem value_cons (b : UInt8) (bs : List UInt8) :
    value (b :: bs) = b.toNat * 256 ^ bs.length + value bs := by
  simpa [value] using value_append [b] bs

theorem value_lt (bs : List UInt8) : value bs < 256 ^ bs.length := by
  induction bs with
  | nil => simp
  | cons b bs ih =>
      rw [value_cons, List.length_cons, pow_succ]
      have hb : b.toNat < 256 := b.toNat_lt
      nlinarith

@[simp] theorem value_bytes (n x : Nat) : value (bytes n x) = x % 256 ^ n := by
  induction n generalizing x with
  | zero => simp [bytes, Nat.mod_one]
  | succ n ih =>
      have hlow : value [(x % 256).toUInt8] = x % 256 := by simp [value]
      rw [bytes, value_append, ih, hlow, List.length_singleton, pow_one, pow_succ',
        Nat.mod_mul]
      omega

theorem bytes_value (bs : List UInt8) : bytes bs.length (value bs) = bs := by
  induction bs using List.reverseRecOn with
  | nil => rfl
  | append_singleton bs b ih =>
      have hsingle : value [b] = b.toNat := by simp [value]
      have hb : b.toNat < 256 := b.toNat_lt
      have hlast : (value (bs ++ [b]) % 256).toUInt8 = b := by
        rw [value_append, hsingle, List.length_singleton, pow_one]
        apply UInt8.toNat_inj.mp
        simp only [UInt8.toNat_ofNat', Nat.toUInt8]
        omega
      have hinit : value (bs ++ [b]) / 256 = value bs := by
        rw [value_append, hsingle, List.length_singleton, pow_one]
        omega
      rw [List.length_append, List.length_singleton, bytes, hinit, ih, hlast]

/-- Two byte strings of one length are equal when their values are. -/
theorem eq_of_value_eq {xs ys : List UInt8} (hlen : xs.length = ys.length)
    (hval : value xs = value ys) : xs = ys := by
  rw [← bytes_value xs, ← bytes_value ys, hlen, hval]

theorem width_pos (x : Nat) : 0 < width x := by
  unfold width
  split <;> omega

theorem lt_pow_width (x : Nat) : x < 256 ^ width x := by
  induction x using Nat.strong_induction_on with
  | h x ih =>
      unfold width
      split
      · simpa using ‹x < 256›
      · have hdiv := ih (x / 256) (by omega)
        rw [pow_succ]
        omega

theorem pow_width_le (x : Nat) (hx : 0 < x) : 256 ^ (width x - 1) ≤ x := by
  induction x using Nat.strong_induction_on with
  | h x ih =>
      unfold width
      split
      · simp
        omega
      · have hdiv := ih (x / 256) (by omega) (by omega)
        simp only [Nat.add_sub_cancel]
        have hw := width_pos (x / 256)
        obtain ⟨k, hk⟩ : ∃ k, width (x / 256) = k + 1 := ⟨_, (Nat.succ_pred_eq_of_pos hw).symm⟩
        rw [hk, pow_succ]
        rw [hk, Nat.add_sub_cancel] at hdiv
        omega

theorem width_le_iff (x w : Nat) (hw : 0 < w) : width x ≤ w ↔ x < 256 ^ w := by
  constructor
  · intro hle
    calc x < 256 ^ width x := lt_pow_width x
      _ ≤ 256 ^ w := Nat.pow_le_pow_right (by norm_num) hle
  · intro hlt
    by_contra hgt
    have hx : 0 < x := by
      rcases Nat.eq_zero_or_pos x with h | h
      · subst h
        simp [width] at hgt
        omega
      · exact h
    have hle := pow_width_le x hx
    have : 256 ^ w ≤ 256 ^ (width x - 1) := Nat.pow_le_pow_right (by norm_num) (by omega)
    omega

theorem width_eq_of_bounds (x k : Nat) (hk : 0 < k) (hlo : 1 < k → 256 ^ (k - 1) ≤ x)
    (hhi : x < 256 ^ k) : width x = k := by
  apply le_antisymm ((width_le_iff x k hk).mpr hhi)
  by_contra hlt
  have hwk : width x ≤ k - 1 := by omega
  have hk1 : 1 < k := by
    have := width_pos x
    omega
  have := (width_le_iff x (k - 1) (by omega)).mp hwk
  have := hlo hk1
  omega

/-- The first byte of a minimal encoding is nonzero for a positive number. -/
theorem head_bytes_width_ne_zero (x : Nat) (hx : 0 < x) :
    ∃ b rest, bytes (width x) x = b :: rest ∧ b ≠ 0 := by
  match hb : bytes (width x) x with
  | [] =>
      have := congrArg List.length hb
      simp only [length_bytes, List.length_nil] at this
      exact absurd this (Nat.pos_iff_ne_zero.mp (width_pos x))
  | b :: rest =>
      refine ⟨b, rest, rfl, ?_⟩
      intro hzero
      have hval := congrArg value hb
      have hlen := congrArg List.length hb
      simp only [length_bytes, List.length_cons] at hlen
      rw [value_bytes, Nat.mod_eq_of_lt (lt_pow_width x), value_cons, hzero] at hval
      have hrest := value_lt rest
      have hle := pow_width_le x hx
      rw [hlen, Nat.add_sub_cancel] at hle
      simp only [UInt8.toNat_zero, zero_mul, zero_add] at hval
      omega

/-- A byte string with a nonzero first byte is the minimal encoding of its
value. -/
theorem width_value (b : UInt8) (rest : List UInt8) (hb : b ≠ 0) :
    width (value (b :: rest)) = rest.length + 1 := by
  have hpos : 0 < b.toNat := by
    rcases Nat.eq_zero_or_pos b.toNat with h | h
    · exact absurd (UInt8.toNat_inj.mp (by simpa using h)) hb
    · exact h
  have hlo : 256 ^ rest.length ≤ value (b :: rest) := by
    rw [value_cons]
    have := Nat.le_mul_of_pos_left (256 ^ rest.length) hpos
    omega
  have hhi := value_lt (b :: rest)
  rw [List.length_cons] at hhi
  apply le_antisymm
  · exact (width_le_iff _ _ (by omega)).mpr hhi
  · by_contra hlt
    have hrest : 0 < rest.length := by
      have := width_pos (value (b :: rest))
      omega
    have hle := (width_le_iff (value (b :: rest)) rest.length hrest).mp (by omega)
    omega

/-- Zero bytes in front of a string do not change its value. -/
theorem value_replicate_zero_append (k : Nat) (ys : List UInt8) :
    value (List.replicate k 0 ++ ys) = value ys := by
  induction k with
  | zero => rfl
  | succ k ih =>
      rw [List.replicate_succ, List.cons_append, value_cons, ih]
      simp

theorem value_minimal (x : Nat) : value (minimal x) = x := by
  unfold minimal
  split
  · simp [*]
  · rw [value_bytes, Nat.mod_eq_of_lt (lt_pow_width x)]

theorem length_minimal_le {x n : Nat} (hx : x < 256 ^ n) : (minimal x).length ≤ n := by
  unfold minimal
  split
  · simp
  · rw [length_bytes]
    rcases Nat.eq_zero_or_pos n with rfl | hn
    · simp at hx
      omega
    · exact (width_le_iff x n hn).mpr hx

/-- The minimal encoding padded with zeros in front to `n` bytes is the
`n`-byte encoding. -/
theorem replicate_append_minimal {x n : Nat} (hx : x < 256 ^ n) :
    List.replicate (n - (minimal x).length) 0 ++ minimal x = bytes n x := by
  have hle := length_minimal_le hx
  apply eq_of_value_eq
  · simp only [List.length_append, List.length_replicate, length_bytes]
    omega
  · rw [value_replicate_zero_append, value_minimal, value_bytes, Nat.mod_eq_of_lt hx]

/-- Byte `i` of the `n`-byte encoding, counted from the most significant. -/
theorem getD_bytes (n x i : Nat) (hi : i < n) :
    (bytes n x).getD i 0 = (x / 256 ^ (n - 1 - i) % 256).toUInt8 := by
  induction n generalizing x with
  | zero => omega
  | succ n ih =>
    rw [bytes]
    by_cases hin : i < n
    · rw [List.getD_eq_getElem?_getD, List.getElem?_append_left (by simpa using hin),
        ← List.getD_eq_getElem?_getD, ih (x / 256) hin, Nat.div_div_eq_div_mul, ← pow_succ']
      congr 4
      omega
    · -- the last byte, which the recursion appends
      have hin : i = n := by omega
      subst hin
      rw [List.getD_eq_getElem?_getD, List.getElem?_append_right (by simp), length_bytes,
        Nat.sub_self]
      simp

/-! ### Xor and order of big-endian values -/

/-- Xor acts on the part above the low `k` bits and on the low bits apart. -/
theorem two_pow_mul_add_xor {k a b c e : Nat} (hb : b < 2 ^ k) (he : e < 2 ^ k) :
    (2 ^ k * a + b) ^^^ (2 ^ k * c + e) = 2 ^ k * (a ^^^ c) + (b ^^^ e) := by
  apply Nat.eq_of_testBit_eq
  intro j
  rw [Nat.testBit_xor, Nat.testBit_two_pow_mul_add _ hb, Nat.testBit_two_pow_mul_add _ he,
    Nat.testBit_two_pow_mul_add _ (Nat.xor_lt_two_pow hb he)]
  split <;> simp [Nat.testBit_xor]

theorem pow_256 (n : Nat) : (256 : Nat) ^ n = 2 ^ (8 * n) := by
  rw [pow_mul]
  norm_num

/-- The xor of the values of two byte strings of one length is the value of
their bytewise xor, read one byte at a time. -/
theorem value_cons_xor (x y : UInt8) {xs ys : List UInt8} (hlen : xs.length = ys.length) :
    value (x :: xs) ^^^ value (y :: ys) =
      (x ^^^ y).toNat * 256 ^ xs.length + (value xs ^^^ value ys) := by
  have hxs := value_lt xs
  have hys := value_lt ys
  rw [← hlen, pow_256] at hys
  rw [pow_256] at hxs
  rw [value_cons, value_cons, ← hlen, pow_256, mul_comm x.toNat, mul_comm y.toNat,
    two_pow_mul_add_xor hxs hys, UInt8.toNat_xor, mul_comm]

/-- Big-endian order is lexicographic: the leading digits decide, and the rest
only where they agree. -/
theorem mul_add_lt_mul_add_iff {A a b u v : Nat} (hu : u < A) (hv : v < A) :
    a * A + u < b * A + v ↔ a < b ∨ a = b ∧ u < v := by
  constructor
  · intro h
    rcases lt_trichotomy a b with hab | rfl | hba
    · exact Or.inl hab
    · exact Or.inr ⟨rfl, by omega⟩
    · have hmul : (b + 1) * A ≤ a * A := Nat.mul_le_mul_right A hba
      rw [add_mul, one_mul] at hmul
      omega
  · rintro (hab | ⟨rfl, huv⟩)
    · have hmul : (a + 1) * A ≤ b * A := Nat.mul_le_mul_right A hab
      rw [add_mul, one_mul] at hmul
      omega
    · omega

end GoEthereum.BigEndian
