import Mathlib.Tactic

/-!
The key encodings of the trie (trie/encoding.go). A key is held in hex form,
one nibble a byte, with the terminator 16 after it when it ends at a value:
`compactHexDecode` of a byte key. `compactEncode` packs a hex key into the
compact form a short node is stored in, a first byte whose high nibble holds
the terminator and odd-length flags and then the nibbles two to a byte, and
`compactDecode` unpacks it. `compactHexEncode` and `decodeCompact` read a
byte key back from its hex form.

Go panics where `compactEncode` and `compactDecode` index an empty slice and
where `compactHexEncode` reads past the end of an odd key with no
terminator; the model returns `none` there.
-/

namespace GoEthereum.Trie

/-! ### encoding.go -/

/-- The packing loop of compactEncode: `hex` are the nibbles from `hi` on,
`bi` is the byte they go to and `hs` the shift, 4 for a high nibble and 0 for
a low one. -/
def packLoop (buf : List UInt8) (bi : Nat) (hs : UInt8) : List UInt8 → List UInt8
  | [] => buf
  | h :: hex =>
    if bi < buf.length then
      packLoop (buf.modify bi (· ||| h <<< hs)) (if hs = 0 then bi + 1 else bi) (hs ^^^ ((1 : UInt8) <<< 2))
        hex
    else buf

def compactEncode (hexSlice : List UInt8) : Option (List UInt8) :=
  -- hexSlice[len(hexSlice)-1] panics on an empty key
  match hexSlice.getLast? with
  | none => none
  | some last =>
    let terminator : UInt8 := if last = 16 then 1 else 0
    let hexSlice := if last = 16 then hexSlice.dropLast else hexSlice
    let odd := UInt8.ofNat (hexSlice.length % 2)
    let buf := (List.replicate (hexSlice.length / 2 + 1) (0 : UInt8)).set 0 (terminator <<< 5 ||| odd <<< 4)
    if odd = 0 then some (packLoop buf 1 4 hexSlice) else some (packLoop buf 0 0 hexSlice)

/-- The two nibbles of a byte, high first. -/
def byteNibbles (b : UInt8) : List UInt8 := [b / 16, b % 16]

def compactHexDecode (str : List UInt8) : List UInt8 := str.flatMap byteNibbles ++ [16]

def compactDecode (str : List UInt8) : Option (List UInt8) :=
  let base := (compactHexDecode str).dropLast
  match base.head? with
  -- base[0] panics when str is empty
  | none => none
  | some first =>
    let base := if first ≥ 2 then base ++ [16] else base
    -- base has 2 * len(str) ≥ 2 nibbles here, so neither slice panics
    some (if first % 2 = 1 then base.drop 1 else base.drop 2)

def compactHexEncode (nibbles : List UInt8) : Option (List UInt8) :=
  if nibbles.length = 0 then some []
  else
    let nl := if nibbles[nibbles.length - 1]? = some 16 then nibbles.length - 1 else nibbles.length
    (List.range ((nl + 1) / 2)).mapM fun i => do
      let b := (← nibbles[i * 2]?) * 16
      -- read whenever nl > i*2, which is past the end of an odd key
      if nl > i * 2 then return b + (← nibbles[i * 2 + 1]?) else return b

def decodeCompact (key : List UInt8) : List UInt8 :=
  List.ofFn fun i : Fin (key.length / 2) =>
    key.get ⟨2 * i, by have := i.isLt; omega⟩ * 16 + key.get ⟨2 * i + 1, by have := i.isLt; omega⟩

/-! ### Nibbles of bytes -/

/-- A byte written from two nibbles splits back into them. -/
theorem byteNibbles_join {a b : UInt8} (ha : a < 16) (hb : b < 16) :
    byteNibbles (a <<< 4 ||| b) = [a, b] := by
  have ha' : a.toNat < 16 := ha
  have hb' : b.toNat < 16 := hb
  have hshift : (a <<< 4).toNat = a.toNat * 2 ^ 4 := by
    rw [UInt8.toNat_shiftLeft, Nat.shiftLeft_eq]
    simp only [UInt8.reduceToNat, Nat.reduceMod, Nat.reducePow]
    omega
  have hdiv : (a <<< 4 ||| b) / 16 = a := by
    apply UInt8.toNat_inj.mp
    rw [UInt8.toNat_div, UInt8.toNat_or, hshift, show (16 : UInt8).toNat = 2 ^ 4 from rfl,
      Nat.or_div_two_pow, Nat.mul_div_cancel _ (by norm_num), Nat.div_eq_of_lt (by omega),
      Nat.or_zero]
  have hmod : (a <<< 4 ||| b) % 16 = b := by
    apply UInt8.toNat_inj.mp
    rw [UInt8.toNat_mod, UInt8.toNat_or, hshift, show (16 : UInt8).toNat = 2 ^ 4 from rfl,
      Nat.or_mod_two_pow, Nat.mul_mod_left, Nat.mod_eq_of_lt (by omega), Nat.zero_or]
  rw [byteNibbles, hdiv, hmod]

/-- The two nibbles of a byte put back together. -/
theorem div_mul_add_mod_16 (b : UInt8) : b / 16 * 16 + b % 16 = b := by
  apply UInt8.toNat_inj.mp
  have hb := UInt8.toNat_lt b
  simp [UInt8.toNat_add, UInt8.toNat_mul, UInt8.toNat_div, UInt8.toNat_mod]
  omega

theorem length_flatMap_byteNibbles (str : List UInt8) :
    (str.flatMap byteNibbles).length = 2 * str.length := by
  induction str with
  | nil => rfl
  | cons b str ih =>
    simp only [List.flatMap_cons, List.length_append, ih, byteNibbles]
    simp
    omega

theorem getElem?_flatMap_byteNibbles (str : List UInt8) (i : Nat) :
    (str.flatMap byteNibbles)[2 * i]? = str[i]?.map (· / 16) ∧
      (str.flatMap byteNibbles)[2 * i + 1]? = str[i]?.map (· % 16) := by
  induction str generalizing i with
  | nil => simp
  | cons b str ih =>
    cases i with
    | zero => simp [byteNibbles]
    | succ i =>
      have hi : 2 * (i + 1) = 2 * i + 2 := by omega
      simp only [List.flatMap_cons, byteNibbles, hi, List.cons_append, List.nil_append,
        List.getElem?_cons_succ, List.getElem?_cons_succ]
      exact ih i

/-! ### compactEncode -/

theorem modify_length_append {α : Type*} (pre z : List α) (x : α) (f : α → α) :
    (pre ++ x :: z).modify pre.length f = pre ++ f x :: z := by
  rw [List.modify_eq_take_drop]
  simp

/-- From the shift 4 on, each two steps of the loop fill the next zero byte
with two nibbles. -/
theorem packLoop_pairs : ∀ (pre hex : List UInt8), (∀ x ∈ hex, x < 16) → hex.length % 2 = 0 →
    ∃ q, packLoop (pre ++ List.replicate (hex.length / 2) 0) pre.length 4 hex = pre ++ q ∧
      q.flatMap byteNibbles = hex
  | pre, [], _, _ => ⟨[], by simp [packLoop], rfl⟩
  | _, [_], _, hlen => absurd hlen (by simp)
  | pre, a :: b :: rest, hhex, hlen => by
    have ha : a < 16 := hhex a (by simp)
    have hb : b < 16 := hhex b (by simp)
    have hrest : rest.length / 2 + 1 = (a :: b :: rest).length / 2 := by simp; omega
    -- the high nibble, then the low one, go to the byte at pre.length
    have hstep : packLoop (pre ++ List.replicate ((a :: b :: rest).length / 2) 0) pre.length 4
        (a :: b :: rest) =
        packLoop ((pre ++ [a <<< 4 ||| b]) ++ List.replicate (rest.length / 2) 0)
          (pre ++ [a <<< 4 ||| b]).length 4 rest := by
      rw [← hrest, List.replicate_succ]
      rw [packLoop, if_pos (by simp), modify_length_append, if_neg (by decide),
        show (4 : UInt8) ^^^ ((1 : UInt8) <<< 2) = 0 from rfl, packLoop,
        if_pos (by simp), modify_length_append, if_pos rfl,
        show (0 : UInt8) ^^^ ((1 : UInt8) <<< 2) = 4 from rfl, UInt8.zero_or, UInt8.shiftLeft_zero]
      simp
    obtain ⟨q, hq, hflat⟩ := packLoop_pairs (pre ++ [a <<< 4 ||| b]) rest
      (fun x hx => hhex x (by simp [hx])) (by simp at hlen; omega)
    refine ⟨(a <<< 4 ||| b) :: q, ?_, ?_⟩
    · rw [hstep, hq]
      simp
    · rw [List.flatMap_cons, hflat, byteNibbles_join ha hb]
      rfl

/-- A key in hex form: nibbles, then the terminator 16 when `term` holds. -/
def hexKey (hex : List UInt8) (term : Bool) : List UInt8 := if term then hex ++ [16] else hex

/-- The flag byte of compactEncode is the flag nibble shifted to the high
half. -/
theorem flag_byte (term : Bool) (n : Nat) :
    (if term then (1 : UInt8) else 0) <<< 5 ||| UInt8.ofNat (n % 2) <<< 4 =
      UInt8.ofNat (2 * term.toNat + n % 2) <<< 4 := by
  rcases Nat.mod_two_eq_zero_or_one n with h | h <;> rw [h] <;> cases term <;> decide

/-- compactEncode of a hex key: the flag byte and zero bytes, packed from
byte 1 when the key has an even length and from the low half of byte 0 when
it has an odd one. -/
theorem compactEncode_hexKey (hex : List UInt8) (hhex : ∀ x ∈ hex, x < 16) (term : Bool)
    (hne : hexKey hex term ≠ []) :
    compactEncode (hexKey hex term) =
      some (if hex.length % 2 = 0 then
          packLoop (UInt8.ofNat (2 * term.toNat + hex.length % 2) <<< 4 ::
            List.replicate (hex.length / 2) 0) 1 4 hex
        else
          packLoop (UInt8.ofNat (2 * term.toNat + hex.length % 2) <<< 4 ::
            List.replicate (hex.length / 2) 0) 0 0 hex) := by
  -- the last nibble is 16 exactly when the key is terminated
  obtain ⟨last, hlast, hterm⟩ : ∃ last, (hexKey hex term).getLast? = some last ∧
      (last = 16 ↔ term = true) := by
    cases term with
    | true => exact ⟨16, by simp [hexKey], by simp⟩
    | false =>
      have hlt : hex.getLast hne < 16 := hhex _ (List.getLast_mem hne)
      refine ⟨hex.getLast hne, List.getLast?_eq_some_getLast hne, ?_⟩
      simp only [Bool.false_eq_true, iff_false]
      intro h
      rw [h] at hlt
      exact absurd hlt (by decide)
  have hslice : (if term = true then (hexKey hex term).dropLast else hexKey hex term) = hex := by
    cases term <;> simp [hexKey]
  rw [compactEncode, hlast]
  simp only [hterm, hslice, flag_byte, List.replicate_succ, List.set_cons_zero]
  -- the odd byte of Go is the length's parity
  rcases Nat.mod_two_eq_zero_or_one hex.length with hodd | hodd
  · rw [if_pos (by rw [hodd]; rfl), if_pos hodd]
  · rw [if_neg (by rw [hodd]; decide), if_neg (by omega)]

/-- A key of even length is packed from the high half of byte 1, after the
flag nibble and a zero nibble. -/
theorem packLoop_even {F : UInt8} (hF : F < 16) (hex : List UInt8) (hhex : ∀ x ∈ hex, x < 16)
    (hodd : hex.length % 2 = 0) :
    (packLoop (F <<< 4 :: List.replicate (hex.length / 2) 0) 1 4 hex).flatMap byteNibbles =
      F :: 0 :: hex := by
  obtain ⟨q, hq, hflat⟩ := packLoop_pairs [F <<< 4] hex hhex hodd
  have hq' : packLoop (F <<< 4 :: List.replicate (hex.length / 2) 0) 1 4 hex = F <<< 4 :: q := hq
  have hzero : F <<< 4 = F <<< 4 ||| 0 := UInt8.or_zero.symm
  rw [hq', List.flatMap_cons, hflat, hzero, byteNibbles_join hF (by decide)]
  rfl

/-- A key of odd length starts in the low half of byte 0, after the flag
nibble. -/
theorem packLoop_odd {F : UInt8} (hF : F < 16) (hex : List UInt8) (hhex : ∀ x ∈ hex, x < 16)
    (hodd : hex.length % 2 = 1) :
    (packLoop (F <<< 4 :: List.replicate (hex.length / 2) 0) 0 0 hex).flatMap byteNibbles =
      F :: hex := by
  have hne : hex ≠ [] := List.ne_nil_of_length_pos (by omega)
  obtain ⟨h, hex, rfl⟩ := List.exists_cons_of_ne_nil hne
  have hh : h < 16 := hhex h (by simp)
  have hlen : hex.length % 2 = 0 := by simp at hodd; omega
  have hhalf : (h :: hex).length / 2 = hex.length / 2 := by simp; omega
  obtain ⟨q, hq, hflat⟩ :=
    packLoop_pairs [F <<< 4 ||| h] hex (fun x hx => hhex x (by simp [hx])) hlen
  -- one step fills the low half of byte 0 and moves to byte 1
  have hstep : packLoop (F <<< 4 :: List.replicate (hex.length / 2) 0) 0 0 (h :: hex) =
      packLoop ([F <<< 4 ||| h] ++ List.replicate (hex.length / 2) 0) [F <<< 4 ||| h].length 4
        hex := by
    rw [packLoop, if_pos (by simp), if_pos rfl,
      show (0 : UInt8) ^^^ ((1 : UInt8) <<< 2) = 4 from rfl, UInt8.shiftLeft_zero]
    rfl
  rw [hhalf, hstep, hq, List.singleton_append, List.flatMap_cons, hflat, byteNibbles_join hF hh]
  rfl

/-- The nibbles of the compact form: the flag nibble, a zero nibble when the
key has an even length, then the key's nibbles. -/
theorem compactEncode_nibbles (hex : List UInt8) (hhex : ∀ x ∈ hex, x < 16) (term : Bool)
    (hne : hexKey hex term ≠ []) :
    ∃ buf, compactEncode (hexKey hex term) = some buf ∧
      buf.flatMap byteNibbles = UInt8.ofNat (2 * term.toNat + hex.length % 2) ::
        (if hex.length % 2 = 1 then hex else 0 :: hex) := by
  have hF : UInt8.ofNat (2 * term.toNat + hex.length % 2) < 16 := by
    rw [UInt8.lt_iff_toNat_lt, UInt8.toNat_ofNat']
    have := Bool.toNat_le term
    simp only [Nat.reducePow, UInt8.reduceToNat]
    omega
  rw [compactEncode_hexKey hex hhex term hne]
  refine ⟨_, rfl, ?_⟩
  rcases Nat.mod_two_eq_zero_or_one hex.length with hodd | hodd
  · rw [if_pos hodd, if_neg (by omega), packLoop_even hF hex hhex hodd]
  · rw [if_neg (by omega), if_pos hodd, packLoop_odd hF hex hhex hodd]

example : compactEncode (hexKey [1, 2, 3] true) = some [0x31, 0x23] := by decide

/-! ### compactDecode -/

section Nibbles

variable {buf hex : List UInt8} {term : Bool}
  (hnib : buf.flatMap byteNibbles = UInt8.ofNat (2 * term.toNat + hex.length % 2) ::
    (if hex.length % 2 = 1 then hex else 0 :: hex))
include hnib

/-- The flags read back from the first nibble give the key back. -/
theorem compactDecode_of_nibbles : compactDecode buf = some (hexKey hex term) := by
  rw [compactDecode, compactHexDecode, List.dropLast_concat, hnib]
  cases term <;> rcases Nat.mod_two_eq_zero_or_one hex.length with hodd | hodd <;>
    simp [hodd, hexKey]

theorem length_of_nibbles : buf.length = hex.length / 2 + 1 := by
  have hlen := congrArg List.length hnib
  rw [length_flatMap_byteNibbles] at hlen
  split_ifs at hlen <;> simp at hlen <;> omega

theorem head_of_nibbles :
    buf.head?.map (· / 16) = some (UInt8.ofNat (2 * term.toNat + hex.length % 2)) := by
  cases buf with
  | nil => simp at hnib
  | cons b buf =>
    rw [List.flatMap_cons, byteNibbles, List.cons_append, List.cons.injEq] at hnib
    rw [List.head?_cons, Option.map_some, hnib.1]

end Nibbles

/-- compactDecode undoes compactEncode on every hex key. -/
theorem compactDecode_compactEncode (hex : List UInt8) (hhex : ∀ x ∈ hex, x < 16) (term : Bool)
    (hne : hexKey hex term ≠ []) :
    ∃ buf, compactEncode (hexKey hex term) = some buf ∧ compactDecode buf = some (hexKey hex term) := by
  obtain ⟨buf, henc, hnib⟩ := compactEncode_nibbles hex hhex term hne
  exact ⟨buf, henc, compactDecode_of_nibbles hnib⟩

/-- Two hex keys with one compact form are one key. -/
theorem compactEncode_inj {hex₁ hex₂ : List UInt8} {t₁ t₂ : Bool} (h₁ : ∀ x ∈ hex₁, x < 16)
    (h₂ : ∀ x ∈ hex₂, x < 16) (hne₁ : hexKey hex₁ t₁ ≠ []) (hne₂ : hexKey hex₂ t₂ ≠ [])
    (heq : compactEncode (hexKey hex₁ t₁) = compactEncode (hexKey hex₂ t₂)) :
    hexKey hex₁ t₁ = hexKey hex₂ t₂ := by
  obtain ⟨buf₁, henc₁, hdec₁⟩ := compactDecode_compactEncode hex₁ h₁ t₁ hne₁
  obtain ⟨buf₂, henc₂, hdec₂⟩ := compactDecode_compactEncode hex₂ h₂ t₂ hne₂
  have hbuf : buf₁ = buf₂ := Option.some.inj (henc₁.symm.trans (heq.trans henc₂))
  rw [hbuf, hdec₂] at hdec₁
  exact (Option.some.inj hdec₁).symm

/-! ### compactHexEncode and decodeCompact -/

/-- mapM in Option succeeds when every step does. -/
theorem mapM_eq_some_map {α β : Type*} {f : α → Option β} {g : α → β} :
    ∀ l : List α, (∀ x ∈ l, f x = some (g x)) → l.mapM f = some (l.map g)
  | [], _ => rfl
  | x :: l, h => by
    rw [List.mapM_cons, h x (by simp), mapM_eq_some_map l (fun y hy => h y (by simp [hy]))]
    rfl

/-- The first and second nibble of byte `i` of `str`, in its hex form. -/
theorem compactHexDecode_getElem? {str : List UInt8} {i : Nat} (hi : i < str.length) :
    (compactHexDecode str)[i * 2]? = some (str[i] / 16) ∧
      (compactHexDecode str)[i * 2 + 1]? = some (str[i] % 16) := by
  obtain ⟨hhi, hlo⟩ := getElem?_flatMap_byteNibbles str i
  have hlen := length_flatMap_byteNibbles str
  rw [compactHexDecode, List.getElem?_append_left (by omega), Nat.mul_comm,
    List.getElem?_append_left (by omega), hhi, hlo, List.getElem?_eq_getElem hi]
  exact ⟨rfl, rfl⟩

theorem compactHexEncode_compactHexDecode (str : List UInt8) :
    compactHexEncode (compactHexDecode str) = some str := by
  have hlen : (compactHexDecode str).length = 2 * str.length + 1 := by
    rw [compactHexDecode, List.length_append, length_flatMap_byteNibbles]
    rfl
  -- the terminator is dropped, and the 2 * len(str) nibbles left make len(str) bytes
  have hlast : (compactHexDecode str)[2 * str.length + 1 - 1]? = some 16 := by
    rw [Nat.add_sub_cancel, compactHexDecode, ← length_flatMap_byteNibbles,
      List.getElem?_concat_length]
  have hhalf : (2 * str.length + 1 - 1 + 1) / 2 = str.length := by omega
  simp only [compactHexEncode, hlen, hlast, if_true, hhalf, Nat.add_one_ne_zero, if_false]
  rw [mapM_eq_some_map (g := fun i => str.getD i 0)]
  · congr 1
    apply List.ext_getElem (by simp)
    intro i h1 h2
    simp [List.getElem?_eq_getElem h2]
  · intro i hi
    have hi' : i < str.length := List.mem_range.mp hi
    obtain ⟨hhi, hlo⟩ := compactHexDecode_getElem? hi'
    simp only [hhi, hlo, Option.bind_eq_bind, Option.bind_some]
    rw [if_pos (by omega), div_mul_add_mod_16, List.getD_eq_getElem?_getD,
      List.getElem?_eq_getElem hi']
    rfl

theorem decodeCompact_compactHexDecode (str : List UInt8) :
    decodeCompact (compactHexDecode str).dropLast = str := by
  have hkey : (compactHexDecode str).dropLast = str.flatMap byteNibbles := by
    rw [compactHexDecode, List.dropLast_concat]
  rw [hkey]
  apply List.ext_getElem (by rw [decodeCompact, List.length_ofFn, length_flatMap_byteNibbles]; omega)
  intro i h1 h2
  obtain ⟨hhi, hlo⟩ := getElem?_flatMap_byteNibbles str i
  rw [List.getElem?_eq_getElem h2, Option.map_some] at hhi hlo
  simp only [decodeCompact, List.getElem_ofFn, List.get_eq_getElem]
  rw [(List.getElem?_eq_some_iff.mp hhi).2, (List.getElem?_eq_some_iff.mp hlo).2]
  exact div_mul_add_mod_16 _

/-! ### The encodings are inverse -/

/-- compactEncode packs every hex key into `len / 2 + 1` bytes whose first
nibble is the terminator and odd-length flags, and compactDecode unpacks it;
compactHexEncode and decodeCompact read every byte key back from its hex
form; so two hex keys never share a compact form. -/
theorem compact_encodings_inverse :
    (∀ hex : List UInt8, (∀ x ∈ hex, x < 16) → ∀ term : Bool, hexKey hex term ≠ [] →
      ∃ buf, compactEncode (hexKey hex term) = some buf ∧
        buf.length = hex.length / 2 + 1 ∧
        buf.head?.map (· / 16) = some (UInt8.ofNat (2 * term.toNat + hex.length % 2)) ∧
        compactDecode buf = some (hexKey hex term)) ∧
    (∀ str : List UInt8, compactHexEncode (compactHexDecode str) = some str ∧
      decodeCompact (compactHexDecode str).dropLast = str) ∧
    (∀ hex₁ hex₂ : List UInt8, ∀ t₁ t₂ : Bool, (∀ x ∈ hex₁, x < 16) → (∀ x ∈ hex₂, x < 16) →
      hexKey hex₁ t₁ ≠ [] → hexKey hex₂ t₂ ≠ [] →
      compactEncode (hexKey hex₁ t₁) = compactEncode (hexKey hex₂ t₂) →
      hexKey hex₁ t₁ = hexKey hex₂ t₂) := by
  refine ⟨?_, ?_, ?_⟩
  · intro hex hhex term hne
    obtain ⟨buf, henc, hnib⟩ := compactEncode_nibbles hex hhex term hne
    exact ⟨buf, henc, length_of_nibbles hnib, head_of_nibbles hnib, compactDecode_of_nibbles hnib⟩
  · intro str
    exact ⟨compactHexEncode_compactHexDecode str, decodeCompact_compactHexDecode str⟩
  · intro hex₁ hex₂ t₁ t₂ h₁ h₂ hne₁ hne₂ heq
    exact compactEncode_inj h₁ h₂ hne₁ hne₂ heq

theorem compact_encodings_odd_terminated :
    ∃ buf, compactEncode (hexKey [1, 2, 3] true) = some buf ∧
      buf.length = ([1, 2, 3] : List UInt8).length / 2 + 1 ∧
      buf.head?.map (· / 16) =
        some (UInt8.ofNat (2 * true.toNat + ([1, 2, 3] : List UInt8).length % 2)) ∧
      compactDecode buf = some (hexKey [1, 2, 3] true) :=
  compact_encodings_inverse.1 [1, 2, 3] (by simp) true (by simp [hexKey])

end GoEthereum.Trie
