import Mathlib

/-!
Digit strings in a base `b`, most significant digit first. `value b ds` reads
one back, and `minimal b n` is the digits of `n` with no leading zero, `[0]`
for zero, which is how `strconv.AppendUint` prints a number.

A number with base-`b ^ k` digits `ws` (its words, least significant first) can
be printed word by word, most significant first. `printWords` prints each word
with `minimal`: the result reads back as at most the number
(`value_printWords_le`), and as the number exactly when every word below the
top one has its `k` digits anyway (`value_printWords_eq_iff`). Going the other
way, a digit string read in groups of `k` from the right splits into words
(`value_take_eq`).
-/

namespace GoEthereum.Digits

/-- The value of the digits `ds` in base `b`, most significant first. -/
def value (b : Nat) (ds : List Nat) : Nat :=
  ds.foldl (fun acc d => acc * b + d) 0

/-- The digits of `n` in base `b` with no leading zero, `[0]` for zero. -/
def minimal (b n : Nat) : List Nat :=
  if n = 0 then [0] else (Nat.digits b n).reverse

/-- The words `ws` printed most significant first, each by `minimal`. -/
def printWords (b : Nat) (ws : List Nat) : List Nat :=
  ws.reverse.flatMap (minimal b)

variable {b : Nat}

theorem foldl_eq_value (ds : List Nat) (acc : Nat) :
    ds.foldl (fun acc d => acc * b + d) acc = acc * b ^ ds.length + value b ds := by
  induction ds generalizing acc with
  | nil => simp [value]
  | cons d ds ih =>
    simp only [List.foldl_cons, value, List.length_cons]
    rw [ih, ih (0 * b + d)]
    ring

@[simp] theorem value_nil : value b [] = 0 := rfl

theorem value_append (xs ys : List Nat) :
    value b (xs ++ ys) = value b xs * b ^ ys.length + value b ys := by
  rw [value, List.foldl_append, foldl_eq_value]
  rfl

theorem value_cons (d : Nat) (ds : List Nat) : value b (d :: ds) = d * b ^ ds.length + value b ds := by
  rw [← List.singleton_append, value_append]
  simp [value]

theorem value_eq_ofDigits (ds : List Nat) : value b ds = Nat.ofDigits b ds.reverse := by
  induction ds using List.reverseRecOn with
  | nil => rfl
  | append_singleton ds d ih =>
    rw [value_append, ih, List.reverse_append, List.reverse_singleton, List.singleton_append,
      Nat.ofDigits_cons]
    simp [value]
    ring

@[simp] theorem value_minimal (n : Nat) : value b (minimal b n) = n := by
  unfold minimal
  split_ifs with h
  · simp [h, value]
  · rw [value_eq_ofDigits, List.reverse_reverse, Nat.ofDigits_digits]

theorem lt_of_mem_minimal (hb : 1 < b) {d n : Nat} (hd : d ∈ minimal b n) : d < b := by
  unfold minimal at hd
  split_ifs at hd
  · rw [List.mem_singleton.mp hd]
    omega
  · exact Nat.digits_lt_base hb (List.mem_reverse.mp hd)

theorem length_minimal_le (hb : 1 < b) {n k : Nat} (hk : 0 < k) (hn : n < b ^ k) :
    (minimal b n).length ≤ k := by
  unfold minimal
  split_ifs
  · simp only [List.length_singleton]
    omega
  · rw [List.length_reverse]
    exact (Nat.digits_length_le_iff hb n).mpr hn

theorem minimal_ne_nil (n : Nat) : minimal b n ≠ [] := by
  unfold minimal
  split_ifs with h
  · simp
  · simpa [Nat.digits_eq_nil_iff_eq_zero] using h

/-- `minimal` prints no leading zero. -/
theorem head?_minimal_ne_zero {n : Nat} (hn : n ≠ 0) : (minimal b n).head? ≠ some 0 := by
  rw [minimal, if_neg hn, List.head?_reverse,
    List.getLast?_eq_some_getLast (Nat.digits_ne_nil_iff_ne_zero.mpr hn), ne_eq, Option.some.injEq]
  exact Nat.getLast_digit_ne_zero b hn

theorem head?_minimal_of_one_lt (n : Nat) (hlen : 1 < (minimal b n).length) :
    (minimal b n).head? ≠ some 0 := by
  by_cases hn : n = 0
  · simp [minimal, hn] at hlen
  · exact head?_minimal_ne_zero hn

/-- Digits with no leading zero, or a lone zero, are the `minimal` digits of
their value. -/
theorem minimal_value (hb : 1 < b) {ds : List Nat} (hds : ∀ d ∈ ds, d < b) (hne : ds ≠ [])
    (hlead : 1 < ds.length → ds.head? ≠ some 0) : minimal b (value b ds) = ds := by
  obtain ⟨d, rest, rfl⟩ := List.exists_cons_of_ne_nil hne
  by_cases hd : d = 0
  · have hrest : rest = [] := by
      by_contra h
      exact hlead (by simpa using List.length_pos_of_ne_nil h) (by simp [hd])
    subst hd hrest
    simp [minimal, value]
  · have hdig : Nat.digits b (value b (d :: rest)) = (d :: rest).reverse := by
      rw [value_eq_ofDigits]
      apply Nat.digits_ofDigits b hb
      · exact fun l hl => hds l (List.mem_reverse.mp hl)
      · intro _
        simpa [List.getLast_reverse] using hd
    have hv : value b (d :: rest) ≠ 0 := by
      intro h0
      rw [h0, Nat.digits_zero] at hdig
      simp at hdig
    rw [minimal, if_neg hv, hdig, List.reverse_reverse]

/-- The first `e` digits are those before the last `k` of them, then those `k`,
or fewer when there are fewer. -/
theorem value_take_eq {ds : List Nat} {e : Nat} (k : Nat) (he : e ≤ ds.length) :
    value b (ds.take e) =
      value b (ds.take (e - k)) * b ^ k + value b ((ds.take e).drop (e - k)) := by
  have hsplit : ds.take e = ds.take (e - k) ++ (ds.take e).drop (e - k) := by
    conv_lhs => rw [← List.take_append_drop (e - k) (ds.take e)]
    rw [List.take_take, Nat.min_eq_left (Nat.sub_le e k)]
  rcases Nat.lt_or_ge e k with hlt | hge
  · rw [show e - k = 0 by omega]
    simp
  · have hlen : ((ds.take e).drop (e - k)).length = k := by
      simp only [List.length_drop, List.length_take]
      omega
    conv_lhs => rw [hsplit]
    rw [value_append, hlen]

theorem value_printWords_cons (w : Nat) (ws : List Nat) :
    value b (printWords b (w :: ws)) =
      value b (printWords b ws) * b ^ (minimal b w).length + w := by
  simp [printWords, value_append]

/-- The printed words start with the top word, and so with no zero digit. -/
theorem head?_printWords_ne_zero {ws : List Nat} (hne : ws ≠ [])
    (hlast : ws.getLast hne ≠ 0) : (printWords b ws).head? ≠ some 0 := by
  obtain ⟨init, top, rfl⟩ := List.eq_nil_or_concat ws |>.resolve_left hne
  simp only [List.concat_eq_append, List.getLast_append_singleton] at hlast ⊢
  rw [printWords, List.reverse_append, List.reverse_singleton, List.singleton_append,
    List.flatMap_cons, List.head?_append_of_ne_nil _ (minimal_ne_nil top)]
  exact head?_minimal_ne_zero hlast

theorem printWords_ne_nil {ws : List Nat} (hne : ws ≠ []) : printWords b ws ≠ [] := by
  obtain ⟨init, top, rfl⟩ := List.eq_nil_or_concat ws |>.resolve_left hne
  simp [printWords, minimal_ne_nil, List.concat_eq_append]

theorem lt_of_mem_printWords (hb : 1 < b) {d : Nat} {ws : List Nat} (hd : d ∈ printWords b ws) :
    d < b := by
  obtain ⟨w, -, hw⟩ := List.mem_flatMap.mp hd
  exact lt_of_mem_minimal hb hw

section Words

variable {k : Nat} (hb : 1 < b) (hk : 0 < k)
include hb hk

/-- Printing the words without their leading zeros can only lose value. -/
theorem value_printWords_le (ws : List Nat) (hws : ∀ w ∈ ws, w < b ^ k) :
    value b (printWords b ws) ≤ Nat.ofDigits (b ^ k) ws := by
  induction ws with
  | nil => simp [printWords]
  | cons w ws ih =>
    have hlen := length_minimal_le hb hk (hws w List.mem_cons_self)
    have ih' := ih (fun w' h => hws w' (List.mem_cons_of_mem w h))
    have hpow : b ^ (minimal b w).length ≤ b ^ k := Nat.pow_le_pow_right (by omega) hlen
    rw [value_printWords_cons, Nat.ofDigits_cons]
    calc value b (printWords b ws) * b ^ (minimal b w).length + w
        ≤ Nat.ofDigits (b ^ k) ws * b ^ k + w := Nat.add_le_add_right (Nat.mul_le_mul ih' hpow) w
      _ = w + b ^ k * Nat.ofDigits (b ^ k) ws := by ring

/-- One more word reads back right when the words above it do and it has its
`k` digits, or when there are no words above it that are not zero. -/
theorem value_printWords_cons_eq_iff (w : Nat) (ws : List Nat) (hw : w < b ^ k)
    (hws : ∀ w' ∈ ws, w' < b ^ k) :
    value b (printWords b (w :: ws)) = Nat.ofDigits (b ^ k) (w :: ws) ↔
      value b (printWords b ws) = Nat.ofDigits (b ^ k) ws ∧
        (Nat.ofDigits (b ^ k) ws = 0 ∨ (minimal b w).length = k) := by
  rw [value_printWords_cons, Nat.ofDigits_cons]
  set V := value b (printWords b ws)
  set X := Nat.ofDigits (b ^ k) ws
  set p := b ^ (minimal b w).length
  have hVX : V ≤ X := value_printWords_le hb hk ws hws
  have hpow : p ≤ b ^ k := Nat.pow_le_pow_right (by omega) (length_minimal_le hb hk hw)
  have hp : 0 < p := Nat.pow_pos (by omega)
  constructor
  · intro h
    -- `V * p ≤ X * p ≤ X * b ^ k`, and the two ends are equal
    have heq : V * p = X * b ^ k := by rw [Nat.mul_comm X]; omega
    have h1 : V * p ≤ X * p := Nat.mul_le_mul_right p hVX
    have h2 : X * p ≤ X * b ^ k := Nat.mul_le_mul_left X hpow
    have hV : V = X := Nat.eq_of_mul_eq_mul_right hp (by omega)
    refine ⟨hV, ?_⟩
    rcases Nat.eq_zero_or_pos X with hX | hX
    · exact .inl hX
    · have hpk : p = b ^ k := Nat.eq_of_mul_eq_mul_left hX (by omega)
      exact .inr (Nat.pow_right_injective (by omega) hpk)
  · rintro ⟨hV, hX | hlen⟩
    · rw [hV, hX]
      simp
    · rw [hV, show p = b ^ k by rw [← hlen]]
      ring

/-- The words of a number, whose top word is not zero, read back as the number
exactly when every word below the top one has its `k` digits. -/
theorem value_printWords_eq_iff (ws : List Nat) (hws : ∀ w ∈ ws, w < b ^ k)
    (hlast : ∀ h : ws ≠ [], ws.getLast h ≠ 0) :
    value b (printWords b ws) = Nat.ofDigits (b ^ k) ws ↔
      ∀ w ∈ ws.dropLast, (minimal b w).length = k := by
  induction ws with
  | nil => simp [printWords]
  | cons w ws ih =>
    have hws' : ∀ w' ∈ ws, w' < b ^ k := fun w' h => hws w' (List.mem_cons_of_mem w h)
    rw [value_printWords_cons_eq_iff hb hk w ws (hws w List.mem_cons_self) hws']
    by_cases hnil : ws = []
    · subst hnil
      simp [printWords]
    · have hlast' : ∀ h : ws ≠ [], ws.getLast h ≠ 0 := fun h => by
        simpa [List.getLast_cons h] using hlast (List.cons_ne_nil w ws)
      -- the words above `w` are a number's digits, so they are not all zero
      have hX : Nat.ofDigits (b ^ k) ws ≠ 0 := by
        intro h0
        have hdig := Nat.digits_ofDigits (b ^ k) (Nat.one_lt_pow hk.ne' hb) ws hws' hlast'
        rw [h0, Nat.digits_zero] at hdig
        exact hnil hdig.symm
      rw [ih hws' hlast', List.dropLast_cons_of_ne_nil hnil, List.forall_mem_cons]
      simp only [hX, false_or]
      exact and_comm

end Words

end GoEthereum.Digits
