import GoEthereum.Data.BigEndian

/-!
RLP values and what their encoding is. A value is a byte string or a list of
values, which is exactly what `DecodeBytes` produces into an `interface{}`
(`[]byte` and `[]interface{}`) and what `EncodeToBytes` accepts from it.

`Value.rlp` states the format itself, independently of how `rlp/encode.go`
assembles it: a byte below `0x80` stands for itself, any other string gets the
length prefix with offset `0x80`, a list gets the prefix with offset `0xC0`
before the concatenated encodings of its items. A payload of 56 bytes or more
has a long prefix: `offset + 55 + w` followed by the `w` big-endian bytes of
its length. The encoder and decoder models are compared against this.
-/

namespace GoEthereum.Rlp

open GoEthereum.BigEndian

inductive Value where
  | bytes (b : List UInt8)
  | list (items : List Value)
  deriving Repr, Inhabited

mutual
def Value.decEq : (a b : Value) → Decidable (a = b)
  | .bytes x, .bytes y =>
      if h : x = y then isTrue (h ▸ rfl) else isFalse (fun e => by cases e; exact h rfl)
  | .list xs, .list ys =>
      match Value.decEqList xs ys with
      | isTrue h => isTrue (h ▸ rfl)
      | isFalse h => isFalse (fun e => by cases e; exact h rfl)
  | .bytes _, .list _ => isFalse (fun e => by cases e)
  | .list _, .bytes _ => isFalse (fun e => by cases e)

def Value.decEqList : (xs ys : List Value) → Decidable (xs = ys)
  | [], [] => isTrue rfl
  | x :: xs, y :: ys =>
      match Value.decEq x y, Value.decEqList xs ys with
      | isTrue hx, isTrue hxs => isTrue (hx ▸ hxs ▸ rfl)
      | isFalse hx, _ => isFalse (fun e => by cases e; exact hx rfl)
      | _, isFalse hxs => isFalse (fun e => by cases e; exact hxs rfl)
  | [], _ :: _ => isFalse (fun e => by cases e)
  | _ :: _, [] => isFalse (fun e => by cases e)
end

instance : DecidableEq Value := Value.decEq

/-- The length prefix of a payload of `n` bytes. -/
def lengthPrefix (offset : UInt8) (n : Nat) : List UInt8 :=
  if n < 56 then [offset + n.toUInt8]
  else (offset + 55 + (width n).toUInt8) :: BigEndian.bytes (width n) n

/-- A one-byte string whose byte is below `0x80` is its own encoding. -/
def isSingleByte : List UInt8 → Bool
  | [b] => b < 0x80
  | _ => false

def rlpBytes (b : List UInt8) : List UInt8 :=
  if isSingleByte b then b else lengthPrefix 0x80 b.length ++ b

mutual
def Value.rlp : Value → List UInt8
  | .bytes b => rlpBytes b
  | .list items =>
      lengthPrefix 0xC0 (Value.rlpList items).length ++ Value.rlpList items

def Value.rlpList : List Value → List UInt8
  | [] => []
  | v :: vs => v.rlp ++ Value.rlpList vs
end

mutual
/-- Every length field of the value fits a `uint64`: the domain of the
format, whose long prefixes hold at most eight length bytes. -/
def Value.fits : Value → Bool
  | .bytes b => decide (b.length < 2 ^ 64)
  | .list items => decide ((Value.rlpList items).length < 2 ^ 64) && Value.fitsList items

def Value.fitsList : List Value → Bool
  | [] => true
  | v :: vs => v.fits && Value.fitsList vs
end

@[simp] theorem rlp_bytes (b : List UInt8) : (Value.bytes b).rlp = rlpBytes b := by
  simp [Value.rlp]

@[simp] theorem rlp_list (items : List Value) :
    (Value.list items).rlp =
      lengthPrefix 0xC0 (Value.rlpList items).length ++ Value.rlpList items := by
  simp [Value.rlp]

@[simp] theorem rlpList_nil : Value.rlpList [] = [] := by
  simp [Value.rlpList]

@[simp] theorem rlpList_cons (v : Value) (vs : List Value) :
    Value.rlpList (v :: vs) = v.rlp ++ Value.rlpList vs := by
  simp [Value.rlpList]

@[simp] theorem fits_bytes (b : List UInt8) : (Value.bytes b).fits = decide (b.length < 2 ^ 64) := by
  simp [Value.fits]

@[simp] theorem fits_list (items : List Value) :
    (Value.list items).fits =
      (decide ((Value.rlpList items).length < 2 ^ 64) && Value.fitsList items) := by
  simp [Value.fits]

@[simp] theorem fitsList_cons (v : Value) (vs : List Value) :
    Value.fitsList (v :: vs) = (v.fits && Value.fitsList vs) := by
  simp [Value.fitsList]

theorem length_lengthPrefix (offset : UInt8) (n : Nat) :
    (lengthPrefix offset n).length = if n < 56 then 1 else width n + 1 := by
  unfold lengthPrefix
  split <;> simp

theorem length_lengthPrefix_pos (offset : UInt8) (n : Nat) : 0 < (lengthPrefix offset n).length := by
  rw [length_lengthPrefix]
  split <;> omega

theorem length_rlp_pos (v : Value) : 0 < v.rlp.length := by
  cases v with
  | bytes b =>
      rw [rlp_bytes, rlpBytes]
      split
      · rename_i hsingle
        match b, hsingle with
        | [_], _ => simp
      · simpa using Or.inl (length_lengthPrefix_pos 0x80 b.length)
  | list items =>
      simpa using Or.inl (length_lengthPrefix_pos 0xC0 (Value.rlpList items).length)

/-- Each item takes at least one byte of a list payload. -/
theorem length_le_rlpList (items : List Value) : items.length ≤ (Value.rlpList items).length := by
  induction items with
  | nil => simp
  | cons v vs ih =>
      have := length_rlp_pos v
      simp only [List.length_cons, rlpList_cons, List.length_append]
      omega

theorem length_rlp_le_rlpList {items : List Value} {v : Value} (hv : v ∈ items) :
    v.rlp.length ≤ (Value.rlpList items).length := by
  induction items with
  | nil => simp at hv
  | cons w ws ih =>
      simp only [rlpList_cons, List.length_append]
      rcases List.mem_cons.mp hv with rfl | hmem
      · omega
      · have := ih hmem
        omega

/-! ### Size bounds -/

/-- A longer payload never has a shorter length prefix. -/
theorem length_lengthPrefix_mono (o o' : UInt8) {n m : Nat} (h : n ≤ m) :
    (lengthPrefix o n).length ≤ (lengthPrefix o' m).length := by
  rw [length_lengthPrefix, length_lengthPrefix]
  have hwidth : width n ≤ width m :=
    (width_le_iff n (width m) (width_pos m)).mpr (lt_of_le_of_lt h (lt_pow_width m))
  split_ifs <;> omega

theorem length_lengthPrefix_of_lt_56 (o : UInt8) {n : Nat} (h : n < 56) :
    (lengthPrefix o n).length = 1 := by
  rw [length_lengthPrefix, if_pos h]

/-- A payload of 56 to 255 bytes has a prefix of two bytes. -/
theorem length_lengthPrefix_of_lt_256 (o : UInt8) {n : Nat} (h56 : 56 ≤ n) (h : n < 256) :
    (lengthPrefix o n).length = 2 := by
  rw [length_lengthPrefix, if_neg (by omega), width_eq_of_bounds n 1 (by omega) (by omega) (by simpa)]

/-- A payload of 256 to 65535 bytes has a prefix of three bytes. -/
theorem length_lengthPrefix_of_lt_65536 (o : UInt8) {n : Nat} (h256 : 256 ≤ n) (h : n < 65536) :
    (lengthPrefix o n).length = 3 := by
  rw [length_lengthPrefix, if_neg (by omega),
    width_eq_of_bounds n 2 (by omega) (fun _ => by simpa using h256) (by simpa using h)]

theorem length_rlpBytes_le {b : List UInt8} {n : Nat} (h : b.length ≤ n) :
    (rlpBytes b).length ≤ (lengthPrefix 0x80 n).length + n := by
  unfold rlpBytes
  split
  · -- a single byte below 0x80 is one byte, and `n` is at least one
    have hpos := length_lengthPrefix_pos 0x80 n
    have hone : b.length = 1 := by
      rename_i hsingle
      match b, hsingle with
      | [_], _ => rfl
    omega
  · rw [List.length_append]
    have := length_lengthPrefix_mono 0x80 0x80 h
    omega

theorem length_rlpList_le {items : List Value} {c : Nat} (h : ∀ v ∈ items, v.rlp.length ≤ c) :
    (Value.rlpList items).length ≤ c * items.length := by
  induction items with
  | nil => simp
  | cons v vs ih =>
    have hv := h v (List.mem_cons_self ..)
    have hvs := ih (fun w hw => h w (List.mem_cons_of_mem v hw))
    rw [rlpList_cons, List.length_append, List.length_cons, Nat.mul_succ]
    omega

theorem length_rlp_list_le {items : List Value} {n : Nat} (h : (Value.rlpList items).length ≤ n) :
    (Value.list items).rlp.length ≤ (lengthPrefix 0xC0 n).length + n := by
  rw [rlp_list, List.length_append]
  have := length_lengthPrefix_mono 0xC0 0xC0 h
  omega

example : (Value.list [.bytes [0x63, 0x61, 0x74], .bytes [0x64, 0x6f, 0x67]]).rlp =
    [0xc8, 0x83, 0x63, 0x61, 0x74, 0x83, 0x64, 0x6f, 0x67] := by decide

end GoEthereum.Rlp
