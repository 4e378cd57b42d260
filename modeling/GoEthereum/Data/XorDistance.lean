import GoEthereum.Data.BigEndian
import GoEthereum.Data.Nearest

/-!
The xor metric on byte strings of one length. `cmp target a b` is the loop
that both Kademlia tables of the source use to compare two keys by their
distance to a target: the bytes of `a ^ target` and `b ^ target` from the
first on, `1` if `a` is farther, `-1` if it is nearer, `0` if they are as
near. `cmp_eq` says it is the three-way comparison of `distance`, the xor of
the big-endian values, so that a list kept nearest first by `cmp` is sorted
by `distance` and `Nearest` applies to it (`splits_cmp_nonneg`,
`splits_cmp_pos`).
-/

namespace GoEthereum.XorDistance

open BigEndian Nearest

/-- The comparison of `a` and `b` by their xor distance to `target`, byte by
byte from the first. -/
def cmp : List UInt8 → List UInt8 → List UInt8 → Int
  | t :: target, x :: a, y :: b =>
    if x ^^^ t > y ^^^ t then 1 else if x ^^^ t < y ^^^ t then -1 else cmp target a b
  | _, _, _ => 0

/-- The xor distance of `a` from `target`, as big-endian numbers. -/
def distance (target a : List UInt8) : Nat := value a ^^^ value target

theorem distance_lt {target a : List UInt8} (ha : a.length = target.length) :
    distance target a < 256 ^ target.length := by
  have hlt := Nat.xor_lt_two_pow (ha ▸ pow_256 a.length ▸ value_lt a)
    (pow_256 target.length ▸ value_lt target)
  rw [pow_256]
  exact hlt

theorem distance_cons (t x : UInt8) {target a : List UInt8} (ha : a.length = target.length) :
    distance (t :: target) (x :: a) =
      (x ^^^ t).toNat * 256 ^ target.length + distance target a := by
  rw [distance, value_cons_xor x t ha, ha]
  rfl

/-- `cmp` is the three-way comparison of the distances. -/
theorem cmp_eq (target a b : List UInt8) (ha : a.length = target.length)
    (hb : b.length = target.length) :
    cmp target a b = if distance target b < distance target a then 1
      else if distance target a < distance target b then -1 else 0 := by
  induction target generalizing a b with
  | nil =>
    rw [List.length_nil, List.length_eq_zero_iff] at ha hb
    subst ha hb
    simp [cmp, distance]
  | cons t target ih =>
    obtain ⟨x, a, rfl⟩ := List.exists_cons_of_length_eq_add_one ha
    obtain ⟨y, b, rfl⟩ := List.exists_cons_of_length_eq_add_one hb
    have ha' : a.length = target.length := by simpa using ha
    have hb' : b.length = target.length := by simpa using hb
    -- the first bytes decide, the rest only where they agree
    rw [distance_cons t x ha', distance_cons t y hb', cmp, ih a b ha' hb']
    simp only [mul_add_lt_mul_add_iff (distance_lt hb') (distance_lt ha'),
      mul_add_lt_mul_add_iff (distance_lt ha') (distance_lt hb'), gt_iff_lt,
      UInt8.lt_iff_toNat_lt]
    split_ifs <;> omega

section Order

variable {target a b : List UInt8} (ha : a.length = target.length)
  (hb : b.length = target.length)
include ha hb

theorem cmp_nonpos_iff : cmp target a b ≤ 0 ↔ distance target a ≤ distance target b := by
  rw [cmp_eq target a b ha hb]
  split_ifs <;> omega

theorem cmp_nonneg_iff : 0 ≤ cmp target a b ↔ distance target b ≤ distance target a := by
  rw [cmp_eq target a b ha hb]
  split_ifs <;> omega

theorem cmp_pos_iff : 0 < cmp target a b ↔ distance target b < distance target a := by
  rw [cmp_eq target a b ha hb]
  split_ifs <;> omega

end Order

/-- Xor with a common point cancels. -/
theorem xor_xor_cancel (s a b : Nat) : (s ^^^ a) ^^^ (s ^^^ b) = a ^^^ b := by
  rw [Nat.xor_assoc, ← Nat.xor_assoc a, Nat.xor_comm a, Nat.xor_assoc, ← Nat.xor_assoc,
    Nat.xor_self, Nat.zero_xor]

/-! ### Nearest first by `cmp` -/

variable {α : Type*} (key : α → List UInt8) (target : List UInt8)

/-- "At least as far as `x`" splits the entries whose keys have the
target's length. -/
theorem splits_cmp_nonneg (x : α) (hx : (key x).length = target.length) :
    Splits (fun p => distance target (key p)) x
      (fun e => decide (cmp target (key e) (key x) ≥ 0))
      (fun p => (key p).length = target.length) := by
  apply (splits_le _ x _).congr
  intro e he
  exact decide_eq_decide.mpr (cmp_nonneg_iff he hx).symm

/-- "Farther than `x`" splits the entries whose keys have the target's
length. -/
theorem splits_cmp_pos (x : α) (hx : (key x).length = target.length) :
    Splits (fun p => distance target (key p)) x
      (fun e => decide (cmp target (key e) (key x) > 0))
      (fun p => (key p).length = target.length) := by
  apply (splits_lt _ x _).congr
  intro e he
  exact decide_eq_decide.mpr (cmp_pos_iff he hx).symm

end GoEthereum.XorDistance
