import Mathlib.Tactic

/-!
The run-length encoding of the compression/rle package. `Compress` cuts its
input into chunks (`compressChunk`): the token byte escaped as `token,
tokenToken`, a run of `j` zeros as `token, byte(j + 2)`, a 32-byte window
equal to the hash of the empty string or of `0x80` as `token, emptyShaToken`
or `token, emptyListShaToken`, and any other byte as itself. `Decompress`
reads a token and the byte after it back (`tokenChunk`).

The escape codes and the zero counts share the byte after the token. Every
chunk but a run of 251, 252 or 253 zeros decodes to the bytes it consumed
(`Decompress_chunk`), so an input with no 251 zeros in a row round-trips
(`Decompress_Compress`); those three runs are written with the codes of the
two hashes and of the token (`Decompress_Compress_zero_run`).
-/

namespace GoEthereum.Rle

def token : UInt8 := 0xfe
def emptyShaToken : UInt8 := 0xfd
def emptyListShaToken : UInt8 := 0xfe
def tokenToken : UInt8 := 0xff

/-- crypto.Keccak256 of the empty string, the empty code hash of core/state. -/
def empty : List UInt8 :=
  [0xc5, 0xd2, 0x46, 0x01, 0x86, 0xf7, 0x23, 0x3c, 0x92, 0x7e, 0x7d, 0xb2, 0xdc, 0xc7, 0x03, 0xc0,
   0xe5, 0x00, 0xb6, 0x53, 0xca, 0x82, 0x27, 0x3b, 0x7b, 0xfa, 0xd8, 0x04, 0x5d, 0x85, 0xa4, 0x70]

/-- crypto.Keccak256 of the byte 0x80, the emptyRoot of trie/trie.go. -/
def emptyList : List UInt8 :=
  [0x56, 0xe8, 0x1f, 0x17, 0x1b, 0xcc, 0x55, 0xa6, 0xff, 0x83, 0x45, 0xe6, 0x92, 0xc0, 0xf8, 0x6e,
   0x5b, 0x48, 0xe0, 0x1b, 0x99, 0x6c, 0xad, 0xc0, 0x01, 0x62, 0x2f, 0xb5, 0xe3, 0x63, 0xb4, 0x21]

/-! ### Decompress -/

/-- The bytes that the switch of `Decompress` writes for the byte `c` after
a token. -/
def tokenChunk (c : UInt8) : List UInt8 :=
  if c = emptyShaToken then empty
  else if c = emptyListShaToken then emptyList
  else if c = tokenToken then [token]
  -- make([]byte, int(dat[i+1]-2)): the subtraction is on bytes and wraps
  else List.replicate (c - 2).toNat 0

def Decompress : List UInt8 → Except String (List UInt8)
  | [] => .ok []
  | d :: dat =>
    if d = token then
      match dat with
      | c :: dat => (tokenChunk c ++ ·) <$> Decompress dat
      | [] => .error "error reading bytes. token encountered without proceeding bytes"
    else (d :: ·) <$> Decompress dat

theorem Decompress_token (c : UInt8) (dat : List UInt8) :
    Decompress ([token, c] ++ dat) = (tokenChunk c ++ ·) <$> Decompress dat := by
  simp [Decompress]

theorem Decompress_literal {d : UInt8} (hd : d ≠ token) (dat : List UInt8) :
    Decompress ([d] ++ dat) = (d :: ·) <$> Decompress dat := by
  rw [List.singleton_append, Decompress.eq_def]
  simp [hd]

/-- The zero counts that come back: every count from 2 to 255 but the three
whose byte is an escape code. -/
theorem tokenChunk_zeros {j : Nat} (h2 : 2 ≤ j) (h255 : j ≤ 255) (hj : j < 251 ∨ 253 < j) :
    tokenChunk (UInt8.ofNat (j + 2)) = List.replicate j 0 := by
  have hne : ∀ c : UInt8, c.toNat ≠ (j + 2) % 256 → UInt8.ofNat (j + 2) ≠ c := by
    intro c hc heq
    rw [← heq, UInt8.toNat_ofNat'] at hc
    exact hc rfl
  have hcount : (UInt8.ofNat (j + 2) - 2).toNat = j := by
    rw [UInt8.toNat_sub, UInt8.toNat_ofNat']
    simp only [UInt8.reduceToNat, Nat.reducePow]
    omega
  rw [tokenChunk, if_neg (hne _ (by simp [emptyShaToken]; omega)),
    if_neg (hne _ (by simp [emptyListShaToken]; omega)),
    if_neg (hne _ (by simp [tokenToken]; omega)), hcount]

/-- The three zero counts that are read as escape codes: what they decode
to does not start with a zero. -/
theorem tokenChunk_escape {j : Nat} (h251 : 251 ≤ j) (h253 : j ≤ 253) :
    tokenChunk (UInt8.ofNat (j + 2)) ≠ [] ∧ (tokenChunk (UInt8.ofNat (j + 2))).head? ≠ some 0 := by
  interval_cases j <;> decide

/-! ### Compress -/

/-- The loop of compressChunk that counts zeros: `j` bytes are counted and
`dat` is what follows them. -/
def countZeros (j : Nat) : List UInt8 → Nat
  | [] => j
  | b :: dat => if j ≤ 254 then (if b ≠ 0 then j else countZeros (j + 1) dat) else j

/-- One chunk of `Compress` at a byte `d` followed by `rest`: the bytes
written and how many input bytes they stand for. -/
def compressChunk (d : UInt8) (rest : List UInt8) : List UInt8 × Nat :=
  if d = token then ([token, tokenToken], 1)
  else if (d :: rest).length > 1 ∧ d = 0 ∧ rest.head? = some 0 then
    ([token, UInt8.ofNat (countZeros 0 (d :: rest) + 2)], countZeros 0 (d :: rest))
  else if (d :: rest).length ≥ 32 ∧ empty.head? = some d ∧ (d :: rest).take 32 = empty then
    ([token, emptyShaToken], 32)
  else if (d :: rest).length ≥ 32 ∧ emptyList.head? = some d ∧ (d :: rest).take 32 = emptyList then
    ([token, emptyListShaToken], 32)
  else ([d], 1)

theorem le_countZeros (j : Nat) (dat : List UInt8) : j ≤ countZeros j dat := by
  induction dat generalizing j with
  | nil => simp [countZeros]
  | cons b dat ih =>
    have hnext := ih (j + 1)
    simp only [countZeros]
    split_ifs <;> omega

/-- What `countZeros` counted are zeros. -/
theorem replicate_countZeros_prefix (j : Nat) (dat : List UInt8) :
    List.replicate (countZeros j dat - j) 0 <+: dat := by
  induction dat generalizing j with
  | nil => simp [countZeros]
  | cons b dat ih =>
    simp only [countZeros]
    split_ifs with h254 hb
    · simp
    · have hle := le_countZeros (j + 1) dat
      have hk : countZeros (j + 1) dat - j = countZeros (j + 1) dat - (j + 1) + 1 := by omega
      rw [hk, List.replicate_succ, not_not.mp hb]
      exact List.cons_prefix_cons.mpr ⟨rfl, ih (j + 1)⟩
    · simp

theorem countZeros_replicate_append (k : Nat) {y : List UInt8} (hy : y.head? ≠ some 0) :
    ∀ j, j + k ≤ 255 → countZeros j (List.replicate k 0 ++ y) = j + k := by
  induction k with
  | zero =>
    intro j _
    cases y with
    | nil => simp [countZeros]
    | cons b y =>
      have hb : b ≠ 0 := fun h => hy (by rw [h]; rfl)
      simp [countZeros, hb]
  | succ k ih =>
    intro j hjk
    rw [List.replicate_succ, List.cons_append, countZeros, if_pos (by omega),
      if_neg (not_not.mpr rfl), ih (j + 1) (by omega)]
    omega

theorem compressChunk_count_pos (d : UInt8) (rest : List UInt8) :
    0 < (compressChunk d rest).2 := by
  unfold compressChunk
  split_ifs with htok hzero
  · simp
  · -- a zero run counts the two zeros that started it
    obtain ⟨-, rfl, hhead⟩ := hzero
    obtain ⟨tail, rfl⟩ := List.head?_eq_some_iff.mp hhead
    have htwo := le_countZeros 2 tail
    simp only [countZeros] at htwo ⊢
    simp
    omega
  all_goals simp

def Compress : List UInt8 → List UInt8
  | [] => []
  | d :: rest =>
    let chunk := compressChunk d rest
    chunk.1 ++ Compress ((d :: rest).drop chunk.2)
termination_by dat => dat.length
decreasing_by
  have hpos := compressChunk_count_pos d rest
  simp only [List.length_drop, List.length_cons]
  omega

theorem Compress_cons (d : UInt8) (rest : List UInt8) :
    Compress (d :: rest) =
      (compressChunk d rest).1 ++ Compress ((d :: rest).drop (compressChunk d rest).2) := by
  rw [Compress]

/-- A run of `k + 2` zeros, at most 255, followed by a nonzero byte or
nothing, is one chunk. -/
theorem compressChunk_zeros (k : Nat) (hk : k + 2 ≤ 255) {y : List UInt8}
    (hy : y.head? ≠ some 0) :
    compressChunk 0 (0 :: (List.replicate k 0 ++ y)) = ([token, UInt8.ofNat (k + 2 + 2)], k + 2) := by
  have hcount : countZeros 0 (0 :: 0 :: (List.replicate k 0 ++ y)) = k + 2 := by
    have h := countZeros_replicate_append (k + 2) hy 0 (by omega)
    rwa [List.replicate_succ, List.replicate_succ, Nat.zero_add] at h
  have htok : (0 : UInt8) ≠ token := by decide
  simp only [compressChunk, if_neg htok, hcount]
  simp

/-! ### The round trip -/

/-- One chunk decodes to the bytes it consumed, unless it is a run of 251
zeros or more. -/
theorem Decompress_chunk (d : UInt8) (rest z : List UInt8)
    (hrun : ¬ List.replicate 251 0 <+: d :: rest) :
    Decompress ((compressChunk d rest).1 ++ z) =
      ((d :: rest).take (compressChunk d rest).2 ++ ·) <$> Decompress z := by
  unfold compressChunk
  split_ifs with htok hzero hempty hlist
  · -- the token, escaped
    subst htok
    rw [Decompress_token]
    rfl
  · -- a run of zeros, read back from its count
    obtain ⟨-, rfl, hhead⟩ := hzero
    obtain ⟨tail, rfl⟩ := List.head?_eq_some_iff.mp hhead
    set j := countZeros 0 (0 :: 0 :: tail)
    have hpre : List.replicate j 0 <+: 0 :: 0 :: tail := by
      simpa using replicate_countZeros_prefix 0 (0 :: 0 :: tail)
    have hj2 : 2 ≤ j := by
      have htwo := le_countZeros 2 tail
      simp only [j, countZeros]
      simpa using htwo
    have hj251 : j < 251 := by
      by_contra hge
      have hsplit : List.replicate j (0 : UInt8) = List.replicate 251 0 ++ List.replicate (j - 251) 0 := by
        rw [← List.replicate_add, Nat.add_sub_cancel' (by omega)]
      rw [hsplit] at hpre
      exact hrun ((List.prefix_append _ _).trans hpre)
    have htake : (0 :: 0 :: tail).take j = List.replicate j 0 := by
      rw [List.prefix_iff_eq_take.mp hpre, List.length_replicate]
    show Decompress ([token, UInt8.ofNat (j + 2)] ++ z) = ((0 :: 0 :: tail).take j ++ ·) <$> Decompress z
    rw [Decompress_token, tokenChunk_zeros hj2 (by omega) (Or.inl hj251), htake]
  · -- the hash of the empty string
    rw [Decompress_token, hempty.2.2]
    rfl
  · -- the hash of 0x80
    rw [Decompress_token, hlist.2.2]
    rfl
  · -- a literal byte
    rw [Decompress_literal htok]
    rfl

/-- Compress round-trips on every input with no 251 zeros in a row. -/
theorem Decompress_Compress (x : List UInt8) (hx : ¬ List.replicate 251 0 <:+: x) :
    Decompress (Compress x) = .ok x := by
  induction x using Compress.induct with
  | case1 => simp [Compress, Decompress]
  | case2 d rest chunk ih =>
    -- what follows the chunk has no such run either
    have hdrop : ¬ List.replicate 251 0 <:+: (d :: rest).drop chunk.2 :=
      fun h => hx (h.trans (List.drop_suffix _ _).isInfix)
    rw [Compress_cons, Decompress_chunk d rest _ (fun h => hx h.isInfix), ih hdrop]
    exact congrArg Except.ok (List.take_append_drop _ _)

/-- A run of 251, 252 or 253 zeros that no zero follows does not come back:
its count is read as the code of the empty hash, of the hash of 0x80 or of
the token. -/
theorem Decompress_Compress_zero_run (j : Nat) (hj : 251 ≤ j ∧ j ≤ 253) (y : List UInt8)
    (hy : y.head? ≠ some 0) :
    Decompress (Compress (List.replicate j 0 ++ y)) ≠ .ok (List.replicate j 0 ++ y) := by
  obtain ⟨k, rfl⟩ : ∃ k, j = k + 2 := ⟨j - 2, by omega⟩
  have hx : List.replicate (k + 2) (0 : UInt8) ++ y = 0 :: 0 :: (List.replicate k 0 ++ y) := by
    simp [List.replicate_succ]
  have hdrop : (0 :: 0 :: (List.replicate k 0 ++ y)).drop (k + 2) = y := by simp
  obtain ⟨hne, hhead⟩ := tokenChunk_escape (j := k + 2) hj.1 hj.2
  rw [hx, Compress_cons, compressChunk_zeros k (by omega) hy, hdrop, Decompress_token]
  -- whatever the rest decodes to, the first byte written is not a zero
  cases Decompress (Compress y) with
  | error e =>
    intro h
    cases h
  | ok w =>
    intro h
    have hw : tokenChunk (UInt8.ofNat (k + 2 + 2)) ++ w = 0 :: 0 :: (List.replicate k 0 ++ y) :=
      Except.ok.inj h
    apply hhead
    rw [← List.head?_append_of_ne_nil _ hne, hw]
    rfl

theorem Decompress_Compress_251_zeros :
    (251 ≤ 251 ∧ 251 ≤ 253) ∧ ([] : List UInt8).head? ≠ some 0 ∧
      Decompress (Compress (List.replicate 251 0 ++ [])) ≠ .ok (List.replicate 251 0 ++ []) :=
  ⟨by decide, by decide, Decompress_Compress_zero_run 251 (by decide) [] (by decide)⟩

end GoEthereum.Rle
