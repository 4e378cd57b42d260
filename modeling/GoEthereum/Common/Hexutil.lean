import GoEthereum.Data.Digits
import GoEthereum.Data.StateM
import Mathlib

/-!
The hex encodings of the JSON-RPC API (`common/hexutil`): byte strings
(`Encode`, `Decode` and the JSON of `Bytes`), 64-bit quantities (`EncodeUint64`,
`DecodeUint64` and the JSON of `Uint64`) and big quantities (`EncodeBig`,
`DecodeBig` and the JSON of `Big`). A `big.Int` is an `Int`, and its words
`Bits()` are the base-`2 ^ 64` digits of its absolute value.

Byte strings and 64-bit quantities round-trip, and a 64-bit quantity has no
encoding but its own, up to the case of the letters. A big quantity need not
round-trip: `EncodeBig` prints each word without its leading zeros, while
`DecodeBig` reads the digits back in groups of 16 from the right, so the two
agree exactly when every word below the top one has its top nibble set
(`DecodeBig_EncodeBig_iff`).
-/

namespace GoEthereum.Hexutil

open GoEthereum.Digits
open GoEthereum.StateM (except_ok_bind except_pure except_bind_eq_ok)

/-- The errors of `strconv.ParseUint` and of `encoding/hex`. -/
inductive LibError where
  /-- `strconv.ErrRange` -/
  | ErrRange
  /-- `strconv.ErrSyntax` -/
  | ErrSyntax
  /-- `hex.ErrLength` -/
  | ErrLength
  /-- `hex.InvalidByteError` -/
  | InvalidByteError (b : UInt8)
  deriving DecidableEq, Repr

/-- The errors of the package; the comments give their texts. -/
inductive HexError where
  /-- "empty hex string" -/
  | ErrEmptyString
  /-- "missing 0x prefix for hex data" -/
  | ErrMissingPrefix
  /-- "invalid hex" -/
  | ErrSyntax
  /-- "hex number has no digits after 0x" -/
  | ErrEmptyNumber
  /-- "hex number has leading zero digits after 0x" -/
  | ErrLeadingZero
  /-- "hex string has odd length" -/
  | ErrOddLength
  /-- "hex number does not fit into 64 bits" -/
  | ErrUint64Range
  /-- "cannot unmarshal non-string as hex data" -/
  | errNonString
  /-- "hexutil.Big: can't marshal negative integer" -/
  | errNegativeBigInt
  /-- an error of `encoding/hex` that `Decode` returns as it is -/
  | hex (err : LibError)
  deriving DecidableEq, Repr

def mapError : LibError → HexError
  | .ErrRange => .ErrUint64Range
  | .ErrSyntax => .ErrSyntax
  | .InvalidByteError _ => .ErrSyntax
  | .ErrLength => .ErrOddLength

/-- The bytes of an ASCII text. -/
def ascii (cs : List Char) : List UInt8 :=
  cs.map Char.toUInt8

/-- The digit `v < 16` in lower case: `hextable[v]` of `encoding/hex`, and the
digit `strconv` formats with. -/
def hexDigit (v : Nat) : UInt8 :=
  if v < 10 then (48 + v).toUInt8 else (87 + v).toUInt8

def decodeNibble (c : UInt8) : Option Nat :=
  if '0'.toUInt8 ≤ c ∧ c ≤ '9'.toUInt8 then some (c - '0'.toUInt8).toNat
  else if 'A'.toUInt8 ≤ c ∧ c ≤ 'F'.toUInt8 then some (c - 'A'.toUInt8 + 10).toNat
  else if 'a'.toUInt8 ≤ c ∧ c ≤ 'f'.toUInt8 then some (c - 'a'.toUInt8 + 10).toNat
  else none

/-! ### The library functions -/

/-- `fromHexChar` of `encoding/hex`. -/
def fromHexChar (c : UInt8) : Option UInt8 :=
  if '0'.toUInt8 ≤ c ∧ c ≤ '9'.toUInt8 then some (c - '0'.toUInt8)
  else if 'a'.toUInt8 ≤ c ∧ c ≤ 'f'.toUInt8 then some (c - 'a'.toUInt8 + 10)
  else if 'A'.toUInt8 ≤ c ∧ c ≤ 'F'.toUInt8 then some (c - 'A'.toUInt8 + 10)
  else none

/-- `hex.Encode`: two digits a byte, the high nibble first. -/
def hexEncode (src : List UInt8) : List UInt8 :=
  src.flatMap fun (v : UInt8) => [hexDigit (v >>> 4).toNat, hexDigit (v &&& 0x0f).toNat]

/-- The loop of `hex.Decode` over the pairs of digits. -/
def decodePairs : List UInt8 → Except LibError (List UInt8)
  | a :: b :: rest =>
    match fromHexChar a, fromHexChar b with
    | none, _ => throw (.InvalidByteError a)
    | some _, none => throw (.InvalidByteError b)
    | some x, some y => do
      let tail ← decodePairs rest
      pure (((x <<< 4) ||| y) :: tail)
  | _ => pure []

/-- `hex.Decode` and `hex.DecodeString`. -/
def hexDecode (src : List UInt8) : Except LibError (List UInt8) :=
  if src.length % 2 = 1 then throw .ErrLength else decodePairs src

/-- `strconv.AppendUint(dst, i, 16)` appends these digits. -/
def formatUint (i : Nat) : List UInt8 :=
  (minimal 16 i).map hexDigit

/-- The value `strconv.ParseUint` gives a digit, up to 35 for `z`. -/
def parseDigit (d : UInt8) : Option Nat :=
  if '0'.toUInt8 ≤ d ∧ d ≤ '9'.toUInt8 then some (d - '0'.toUInt8).toNat
  else if 'a'.toUInt8 ≤ d ∧ d ≤ 'z'.toUInt8 then some (d - 'a'.toUInt8 + 10).toNat
  else if 'A'.toUInt8 ≤ d ∧ d ≤ 'Z'.toUInt8 then some (d - 'A'.toUInt8 + 10).toNat
  else none

/-- The digit loop of `strconv.ParseUint(s, 16, 64)`, with `cutoff` at
`maxUint64 / 16 + 1` and `maxVal` at `2 ^ 64 - 1`. -/
def parseUintLoop : Nat → List UInt8 → Except LibError Nat
  | n, [] => pure n
  | n, d :: ds =>
    match parseDigit d with
    | none => throw .ErrSyntax
    | some v =>
      if v ≥ 16 then throw .ErrSyntax
      else if n ≥ (2 ^ 64 - 1) / 16 + 1 then throw .ErrRange
      else if n * 16 + v > 2 ^ 64 - 1 then throw .ErrRange
      else parseUintLoop (n * 16 + v) ds

/-- `strconv.ParseUint(s, 16, 64)`. -/
def ParseUint (s : List UInt8) : Except LibError Nat :=
  if s.length < 1 then throw .ErrSyntax else parseUintLoop 0 s

/-! ### `hexutil.go` -/

def has0xPrefix : List UInt8 → Bool
  | c0 :: c1 :: _ => c0 == '0'.toUInt8 && (c1 == 'x'.toUInt8 || c1 == 'X'.toUInt8)
  | _ => false

def Decode (input : List UInt8) : Except HexError (List UInt8) :=
  if input.length = 0 then throw .ErrEmptyString
  else if !has0xPrefix input then throw .ErrMissingPrefix
  else (hexDecode (input.drop 2)).mapError .hex

def Encode (b : List UInt8) : List UInt8 :=
  ascii ['0', 'x'] ++ hexEncode b

def checkNumber (input : List UInt8) : Except HexError (List UInt8) :=
  if input.length = 0 then throw .ErrEmptyString
  else if !has0xPrefix input then throw .ErrMissingPrefix
  else
    let input := input.drop 2
    if input.length = 0 then throw .ErrEmptyNumber
    else if input.length > 1 ∧ input.head? = some '0'.toUInt8 then throw .ErrLeadingZero
    else pure input

def DecodeUint64 (input : List UInt8) : Except HexError UInt64 := do
  let raw ← checkNumber input
  match ParseUint raw with
  | .ok dec => pure dec.toUInt64
  | .error err => throw (mapError err)

def EncodeUint64 (i : UInt64) : List UInt8 :=
  ascii ['0', 'x'] ++ formatUint i.toNat

/-- The nibbles of a `big.Word` on a 64-bit platform. -/
def bigWordNibbles : Nat := 16

/-- `big.Int.Bits()` of a nonnegative number: its words, least significant
first, with no zero word on top. -/
def Bits (x : Nat) : List Nat :=
  Nat.digits (2 ^ 64) x

/-- The nibble loop of a word of `DecodeBig`: `words[i] *= 16; words[i] += nib`. -/
def decodeWord : Nat → List UInt8 → Except HexError Nat
  | w, [] => pure w
  | w, c :: cs =>
    match decodeNibble c with
    | none => throw .ErrSyntax
    | some nib => decodeWord (w * 16 + nib) cs

/-- The word loop of `DecodeBig`: `count` more words, the next from the digits
`raw[start:end]`, with `start = end - bigWordNibbles` cut at 0. -/
def decodeWords (raw : List UInt8) : Nat → Nat → Except HexError (List Nat)
  | 0, _ => pure []
  | count + 1, e => do
    let start := e - bigWordNibbles
    let w ← decodeWord 0 ((raw.take e).drop start)
    let ws ← decodeWords raw count start
    pure (w :: ws)

/-- What `DecodeBig` and `Big.UnmarshalJSON` do with the digits they checked:
`len(raw) / bigWordNibbles + 1` words, then `SetBits`. -/
def decodeBigRaw (raw : List UInt8) : Except HexError Int := do
  let words ← decodeWords raw (raw.length / bigWordNibbles + 1) raw.length
  pure ((Nat.ofDigits (2 ^ 64) words : Nat) : Int)

def DecodeBig (input : List UInt8) : Except HexError Int := do
  let raw ← checkNumber input
  decodeBigRaw raw

/-- `EncodeBig`: the sign is ignored, and the words are appended by
`strconv.AppendUint`, top word first. -/
def EncodeBig (bigint : Int) : List UInt8 :=
  let nbits := bigint.natAbs.size
  if nbits = 0 then ascii ['0', 'x', '0']
  else ascii ['0', 'x'] ++ (Bits bigint.natAbs).reverse.flatMap formatUint

/-! ### `json.go` -/

def quote (s : List UInt8) : List UInt8 :=
  '"'.toUInt8 :: s ++ ['"'.toUInt8]

def isString (input : List UInt8) : Bool :=
  input.length ≥ 2 && input.head? == some '"'.toUInt8 && input.getLast? == some '"'.toUInt8

def bytesHave0xPrefix (input : List UInt8) : Bool :=
  has0xPrefix input

def checkJSON (input : List UInt8) : Except HexError (List UInt8) :=
  if !isString input then throw .errNonString
  else if input.length = 2 then throw .ErrEmptyString
  else if !bytesHave0xPrefix (input.drop 1) then throw .ErrMissingPrefix
  else
    let input := (input.take (input.length - 1)).drop 3
    if input.length % 2 ≠ 0 then throw .ErrOddLength else pure input

/-- `checkNumberJSON`: past the quotes, its checks are those of `checkNumber`,
in the same order. -/
def checkNumberJSON (input : List UInt8) : Except HexError (List UInt8) :=
  if !isString input then throw .errNonString
  else checkNumber ((input.take (input.length - 1)).drop 1)

def Bytes.MarshalJSON (b : List UInt8) : List UInt8 :=
  quote (ascii ['0', 'x'] ++ hexEncode b)

def Bytes.UnmarshalJSON (input : List UInt8) : Except HexError (List UInt8) := do
  let raw ← checkJSON input
  match hexDecode raw with
  | .ok dec => pure dec
  | .error err => throw (mapError err)

def Uint64.MarshalJSON (b : UInt64) : List UInt8 :=
  quote (ascii ['0', 'x'] ++ formatUint b.toNat)

/-- `Uint64.UnmarshalJSON`: its nibble loop is the one of a word of
`DecodeBig`, in `uint64` arithmetic that the length check keeps from
wrapping. -/
def Uint64.UnmarshalJSON (input : List UInt8) : Except HexError UInt64 := do
  let raw ← checkNumberJSON input
  if raw.length > 16 then throw .ErrUint64Range
  let dec ← decodeWord 0 raw
  pure dec.toUInt64

/-- `Big.MarshalJSON` of a pointer, `none` for nil. -/
def Big.MarshalJSON : Option Int → Except HexError (List UInt8)
  | none => pure (ascii ['n', 'u', 'l', 'l'])
  | some bigint =>
    if bigint < 0 then throw .errNegativeBigInt
    else
      let nbits := bigint.natAbs.size
      if nbits = 0 then pure (quote (ascii ['0', 'x', '0']))
      else pure (quote (ascii ['0', 'x'] ++ (Bits bigint.natAbs).reverse.flatMap formatUint))

def Big.UnmarshalJSON (input : List UInt8) : Except HexError Int := do
  let raw ← checkNumberJSON input
  decodeBigRaw raw

/-! ### Digits -/

theorem decodeNibble_hexDigit {v : Nat} (hv : v < 16) : decodeNibble (hexDigit v) = some v := by
  have h : ∀ v < 16, decodeNibble (hexDigit v) = some v := by decide
  exact h v hv

theorem parseDigit_hexDigit {v : Nat} (hv : v < 16) : parseDigit (hexDigit v) = some v := by
  have h : ∀ v < 16, parseDigit (hexDigit v) = some v := by decide
  exact h v hv

theorem hexDigit_eq_zero_iff {v : Nat} (hv : v < 16) : hexDigit v = '0'.toUInt8 ↔ v = 0 := by
  have h : ∀ v < 16, (hexDigit v = '0'.toUInt8 ↔ v = 0) := by decide
  exact h v hv

theorem fromHexChar_hexDigit {v : Nat} (hv : v < 16) : fromHexChar (hexDigit v) = some (UInt8.ofNat v) := by
  have h : ∀ v < 16, fromHexChar (hexDigit v) = some (UInt8.ofNat v) := by decide
  exact h v hv

/-- A byte is its high nibble shifted back over its low one. -/
theorem nibbles_or (v : UInt8) : ((v >>> 4) <<< 4 ||| (v &&& 0x0f)) = v := by
  apply UInt8.toBitVec_inj.mp
  simp only [UInt8.toBitVec_or, UInt8.toBitVec_shiftLeft, UInt8.toBitVec_shiftRight, UInt8.toBitVec_and]
  -- bit by bit: the low four come from the mask, the high four from the shifts
  ext i hi
  interval_cases i <;> simp

/-- A byte is written as its two nibbles, and `hex.Decode` puts them back. -/
theorem fromHexChar_nibbles (v : UInt8) :
    fromHexChar (hexDigit (v >>> 4).toNat) = some (v >>> 4) ∧
      fromHexChar (hexDigit (v &&& 0x0f).toNat) = some (v &&& 0x0f) ∧
      ((v >>> 4) <<< 4 ||| (v &&& 0x0f)) = v := by
  have hhi : (v >>> 4).toNat < 16 := by
    have := v.toNat_lt
    rw [UInt8.toNat_shiftRight]
    simp only [UInt8.reduceToNat, Nat.reduceMod, Nat.shiftRight_eq_div_pow, Nat.reducePow]
    omega
  have hlo : (v &&& 0x0f).toNat < 16 := by
    rw [UInt8.toNat_and]
    exact Nat.lt_succ_of_le Nat.and_le_right
  refine ⟨?_, ?_, nibbles_or v⟩
  · rw [fromHexChar_hexDigit hhi, UInt8.ofNat_toNat]
  · rw [fromHexChar_hexDigit hlo, UInt8.ofNat_toNat]

/-! ### Byte strings -/

@[simp] theorem length_hexEncode (src : List UInt8) : (hexEncode src).length = 2 * src.length := by
  induction src with
  | nil => rfl
  | cons v vs ih =>
    simp only [hexEncode, List.flatMap_cons, List.length_append, List.length_cons,
      List.length_nil] at ih ⊢
    rw [ih]
    ring

theorem decodePairs_hexEncode (src : List UInt8) : decodePairs (hexEncode src) = .ok src := by
  induction src with
  | nil => rfl
  | cons v vs ih =>
    obtain ⟨hhi, hlo, hv⟩ := fromHexChar_nibbles v
    have henc : hexEncode (v :: vs) =
        hexDigit (v >>> 4).toNat :: hexDigit (v &&& 0x0f).toNat :: hexEncode vs := rfl
    rw [henc, decodePairs, hhi, hlo]
    simp only [ih, hv]
    rfl

theorem hexDecode_hexEncode (src : List UInt8) : hexDecode (hexEncode src) = .ok src := by
  rw [hexDecode, if_neg (by simp), decodePairs_hexEncode]

theorem Decode_Encode (b : List UInt8) : Decode (Encode b) = .ok b := by
  have h0x : has0xPrefix (Encode b) = true := rfl
  rw [Decode, if_neg (by simp [Encode, ascii]), if_neg (by simp [h0x])]
  simp only [Encode, ascii, List.map_cons, List.map_nil, List.cons_append, List.nil_append,
    List.drop_succ_cons, List.drop_zero, hexDecode_hexEncode]
  rfl

/-! ### Between the quotes -/

theorem getLast?_quote (s : List UInt8) : (quote s).getLast? = some '"'.toUInt8 := by
  rw [quote, List.getLast?_append_of_ne_nil _ (List.cons_ne_nil _ _)]
  rfl

theorem isString_quote (s : List UInt8) : isString (quote s) = true := by
  simp only [isString, getLast?_quote]
  simp [quote]

theorem inner_quote (s : List UInt8) :
    ((quote s).take ((quote s).length - 1)).drop 1 = s := by
  simp [quote]

theorem checkNumberJSON_quote (s : List UInt8) : checkNumberJSON (quote s) = checkNumber s := by
  rw [checkNumberJSON, if_neg (by simp [isString_quote]), inner_quote]

theorem checkJSON_quote_0x (h : List UInt8) (heven : h.length % 2 = 0) :
    checkJSON (quote (ascii ['0', 'x'] ++ h)) = .ok h := by
  have hinner : ((quote (ascii ['0', 'x'] ++ h)).take
      ((quote (ascii ['0', 'x'] ++ h)).length - 1)).drop 3 = h := by
    simp [quote, ascii]
  rw [checkJSON, if_neg (by simp [isString_quote]), if_neg (by simp [quote, ascii]),
    if_neg (by simp [quote, ascii, bytesHave0xPrefix, has0xPrefix]), hinner, if_neg (by omega)]
  rfl

theorem Bytes.UnmarshalJSON_MarshalJSON (b : List UInt8) :
    Bytes.UnmarshalJSON (Bytes.MarshalJSON b) = .ok b := by
  rw [Bytes.UnmarshalJSON, Bytes.MarshalJSON, checkJSON_quote_0x _ (by simp)]
  simp only [except_ok_bind, hexDecode_hexEncode]
  rfl

/-- Byte strings round-trip, in the plain encoding and in JSON. -/
theorem bytes_round_trip (b : List UInt8) :
    Decode (Encode b) = .ok b ∧ Bytes.UnmarshalJSON (Bytes.MarshalJSON b) = .ok b :=
  ⟨Decode_Encode b, Bytes.UnmarshalJSON_MarshalJSON b⟩

/-! ### 64-bit quantities -/

/-- The digits after `0x` pass `checkNumber` when there is one, and no leading
zero among several. -/
theorem checkNumber_0x (ds : List Nat) (hds : ∀ d ∈ ds, d < 16) (hne : ds ≠ [])
    (hlead : 1 < ds.length → ds.head? ≠ some 0) :
    checkNumber (ascii ['0', 'x'] ++ ds.map hexDigit) = .ok (ds.map hexDigit) := by
  obtain ⟨d, rest, rfl⟩ := List.exists_cons_of_ne_nil hne
  have hzero : ¬(((d :: rest).map hexDigit).length > 1 ∧
      ((d :: rest).map hexDigit).head? = some '0'.toUInt8) := by
    rintro ⟨hlen, hhead⟩
    have hd := hlead (by simpa using hlen)
    simp only [List.map_cons, List.head?_cons, Option.some.injEq] at hhead
    simp [(hexDigit_eq_zero_iff (hds d List.mem_cons_self)).mp hhead] at hd
  rw [checkNumber, if_neg (by simp [ascii]), if_neg (by simp [ascii, has0xPrefix])]
  simp only [ascii, List.map_cons, List.map_nil, List.cons_append, List.nil_append,
    List.drop_succ_cons, List.drop_zero]
  rw [if_neg (by simp), if_neg (by simpa only [List.map_cons] using hzero)]
  rfl

theorem checkNumber_formatUint (n : Nat) :
    checkNumber (ascii ['0', 'x'] ++ formatUint n) = .ok (formatUint n) :=
  checkNumber_0x _ (fun _ hd => lt_of_mem_minimal (by norm_num) hd) (minimal_ne_nil n)
    (head?_minimal_of_one_lt n)

/-- `strconv.ParseUint` reads back the digits it is given while they fit. -/
theorem parseUintLoop_hexDigits (ds : List Nat) (hds : ∀ d ∈ ds, d < 16) (n : Nat)
    (hfit : n * 16 ^ ds.length + value 16 ds < 2 ^ 64) :
    parseUintLoop n (ds.map hexDigit) = .ok (n * 16 ^ ds.length + value 16 ds) := by
  induction ds generalizing n with
  | nil => simp [parseUintLoop]
  | cons d ds ih =>
    have hd : d < 16 := hds d List.mem_cons_self
    have hpow : 1 ≤ 16 ^ ds.length := Nat.one_le_pow _ _ (by norm_num)
    have hstep : (n * 16 + d) * 16 ^ ds.length + value 16 ds =
        n * 16 ^ (d :: ds).length + value 16 (d :: ds) := by
      rw [List.length_cons, pow_succ, value_cons]
      ring
    -- the next value stays below `cutoff` and `maxVal`
    have hnext : n * 16 + d < 2 ^ 64 := by
      have := Nat.mul_le_mul_left (n * 16 + d) hpow
      omega
    rw [List.map_cons, parseUintLoop, parseDigit_hexDigit hd]
    simp only [if_neg (show ¬d ≥ 16 by omega), if_neg (show ¬n ≥ (2 ^ 64 - 1) / 16 + 1 by omega),
      if_neg (show ¬n * 16 + d > 2 ^ 64 - 1 by omega)]
    rw [ih (fun d' h => hds d' (List.mem_cons_of_mem d h)) (n * 16 + d) (by omega), hstep]

theorem ParseUint_formatUint {n : Nat} (hn : n < 2 ^ 64) : ParseUint (formatUint n) = .ok n := by
  have hds : ∀ d ∈ minimal 16 n, d < 16 := fun _ hd => lt_of_mem_minimal (by norm_num) hd
  have hlen : ¬(formatUint n).length < 1 := by
    simpa [formatUint] using minimal_ne_nil (b := 16) n
  rw [ParseUint, if_neg hlen, formatUint, parseUintLoop_hexDigits _ hds 0 (by simpa using hn)]
  simp

theorem DecodeUint64_EncodeUint64 (i : UInt64) : DecodeUint64 (EncodeUint64 i) = .ok i := by
  rw [DecodeUint64, EncodeUint64, checkNumber_formatUint, except_ok_bind,
    ParseUint_formatUint i.toNat_lt]
  simp

/-- The nibble loop reads back the digits it is given. -/
theorem decodeWord_hexDigits (ds : List Nat) (hds : ∀ d ∈ ds, d < 16) (w : Nat) :
    decodeWord w (ds.map hexDigit) = .ok (w * 16 ^ ds.length + value 16 ds) := by
  induction ds generalizing w with
  | nil => simp [decodeWord]
  | cons d ds ih =>
    rw [List.map_cons, decodeWord, decodeNibble_hexDigit (hds d List.mem_cons_self)]
    dsimp only
    rw [ih (fun d' h => hds d' (List.mem_cons_of_mem d h)), List.length_cons, pow_succ,
      value_cons]
    congr 1
    ring

theorem Uint64.UnmarshalJSON_MarshalJSON (i : UInt64) :
    Uint64.UnmarshalJSON (Uint64.MarshalJSON i) = .ok i := by
  have hds : ∀ d ∈ minimal 16 i.toNat, d < 16 := fun _ hd => lt_of_mem_minimal (by norm_num) hd
  have hlen : ¬(formatUint i.toNat).length > 16 := by
    have := length_minimal_le (b := 16) (by norm_num) (by norm_num)
      (show i.toNat < 16 ^ 16 from i.toNat_lt)
    simpa [formatUint] using this
  rw [Uint64.UnmarshalJSON, Uint64.MarshalJSON, checkNumberJSON_quote, checkNumber_formatUint,
    except_ok_bind]
  simp only [if_neg hlen]
  rw [formatUint, decodeWord_hexDigits _ hds]
  simp

/-! ### One encoding for each 64-bit quantity -/

/-- ASCII lower case, up to which the encoding of a quantity is unique. -/
def toLower (c : UInt8) : UInt8 :=
  if 'A'.toUInt8 ≤ c ∧ c ≤ 'Z'.toUInt8 then c + 32 else c

set_option maxRecDepth 2000 in
theorem toLower_of_parseDigit :
    ∀ c : UInt8, ∀ v < 16, parseDigit c = some v → toLower c = hexDigit v := by
  -- one case a byte: the digit is the one `parseDigit` returns
  have h : ∀ c : UInt8, ∀ v ∈ parseDigit c, v < 16 → toLower c = hexDigit v := by decide
  intro c v hv hc
  exact h c v hc hv

set_option maxRecDepth 2000 in
theorem eq_of_toLower_eq_zero : ∀ c : UInt8, toLower c = '0'.toUInt8 → c = '0'.toUInt8 := by
  decide

/-- What `strconv.ParseUint` accepts are hex digits, of the value it returns. -/
theorem parseUintLoop_ok {raw : List UInt8} {m n : Nat} (hm : m < 2 ^ 64)
    (h : parseUintLoop m raw = .ok n) :
    ∃ ds, (∀ d ∈ ds, d < 16) ∧ raw.map toLower = ds.map hexDigit ∧
      n = m * 16 ^ ds.length + value 16 ds ∧ n < 2 ^ 64 := by
  induction raw generalizing m with
  | nil =>
    cases h
    exact ⟨[], by simp, rfl, by simp, hm⟩
  | cons c cs ih =>
    rw [parseUintLoop] at h
    cases hc : parseDigit c with
    | none =>
      rw [hc] at h
      cases h
    | some v =>
      rw [hc] at h
      dsimp only at h
      have h16 : ¬v ≥ 16 := fun hv => by rw [if_pos hv] at h; cases h
      rw [if_neg h16] at h
      have hcut : ¬m ≥ (2 ^ 64 - 1) / 16 + 1 := fun hcut => by rw [if_pos hcut] at h; cases h
      rw [if_neg hcut] at h
      have hmax : ¬m * 16 + v > 2 ^ 64 - 1 := fun hmax => by rw [if_pos hmax] at h; cases h
      rw [if_neg hmax] at h
      obtain ⟨ds, hds, hmap, hn, hlt⟩ := ih (by omega) h
      refine ⟨v :: ds, ?_, ?_, ?_, hlt⟩
      · intro d hd
        rcases List.mem_cons.mp hd with rfl | hd
        · omega
        · exact hds d hd
      · simp [toLower_of_parseDigit c v (by omega) hc, hmap]
      · rw [hn, List.length_cons, pow_succ, value_cons]
        ring

/-- What `checkNumber` accepts: `0x` or `0X`, then digits with no leading zero
among several. -/
theorem checkNumber_ok {s raw : List UInt8} (h : checkNumber s = .ok raw) :
    ∃ c1, s = '0'.toUInt8 :: c1 :: raw ∧ (c1 = 'x'.toUInt8 ∨ c1 = 'X'.toUInt8) ∧ raw ≠ [] ∧
      (raw.length > 1 → raw.head? ≠ some '0'.toUInt8) := by
  rcases s with _ | ⟨c0, _ | ⟨c1, rest⟩⟩
  · cases h
  · cases h
  · rw [checkNumber] at h
    simp only [has0xPrefix, List.drop_succ_cons, List.drop_zero] at h
    rw [if_neg (by simp)] at h
    have hpre : (c0 == '0'.toUInt8 && (c1 == 'x'.toUInt8 || c1 == 'X'.toUInt8)) = true := by
      by_contra hpre
      rw [if_pos (by rw [Bool.not_eq_true']; exact Bool.eq_false_iff.mpr hpre)] at h
      cases h
    rw [if_neg (by simp [hpre])] at h
    have hne : rest.length ≠ 0 := fun h0 => by rw [if_pos h0] at h; cases h
    rw [if_neg hne] at h
    have hlead : ¬(rest.length > 1 ∧ rest.head? = some '0'.toUInt8) :=
      fun hl => by rw [if_pos hl] at h; cases h
    rw [if_neg hlead] at h
    cases h
    simp only [Bool.and_eq_true, beq_iff_eq, Bool.or_eq_true] at hpre
    rw [hpre.1]
    exact ⟨c1, rfl, hpre.2, by simpa using hne, fun hl h0 => hlead ⟨hl, h0⟩⟩

/-- Whatever `DecodeUint64` accepts is `EncodeUint64` of what it returns, up to
the case of the letters. -/
theorem DecodeUint64_canonical {s : List UInt8} {i : UInt64} (h : DecodeUint64 s = .ok i) :
    s.map toLower = EncodeUint64 i := by
  obtain ⟨raw, hcheck, hparse⟩ := except_bind_eq_ok.mp h
  obtain ⟨c1, rfl, hc1, hne, hlead⟩ := checkNumber_ok hcheck
  cases hp : ParseUint raw with
  | error e =>
    rw [hp] at hparse
    cases hparse
  | ok n =>
    rw [hp] at hparse
    cases hparse
    have hloop : parseUintLoop 0 raw = .ok n := by
      rwa [ParseUint, if_neg (by simpa [List.length_pos_iff] using hne)] at hp
    obtain ⟨ds, hds, hmap, hn, hlt⟩ := parseUintLoop_ok (by norm_num) hloop
    -- `raw` has no leading zero among several digits, so neither has `ds`
    have hlen : raw.length = ds.length := by simpa using congrArg List.length hmap
    have hdlead : 1 < ds.length → ds.head? ≠ some 0 := by
      intro hl h0
      obtain ⟨d, ds', rfl⟩ :=
        List.exists_cons_of_ne_nil (List.ne_nil_of_length_pos (show 0 < ds.length by omega))
      obtain ⟨r, raw', rfl⟩ := List.exists_cons_of_ne_nil hne
      simp only [List.head?_cons, Option.some.injEq] at h0
      simp only [List.map_cons, List.cons.injEq, h0] at hmap
      exact hlead (by omega) (by simpa using eq_of_toLower_eq_zero r hmap.1)
    have hmin := minimal_value (b := 16) (by norm_num) hds
      (List.ne_nil_of_length_pos (show 0 < ds.length by
        have := List.length_pos_of_ne_nil hne
        omega)) hdlead
    have htoNat : n.toUInt64.toNat = n := by
      rw [Nat.toUInt64_eq, UInt64.toNat_ofNat', Nat.mod_eq_of_lt hlt]
    have h0x : toLower '0'.toUInt8 = '0'.toUInt8 ∧ toLower c1 = 'x'.toUInt8 := by
      rcases hc1 with rfl | rfl <;> decide
    rw [EncodeUint64, htoNat, formatUint, hn, Nat.zero_mul, Nat.zero_add, hmin]
    simp [ascii, h0x, hmap]

/-- 64-bit quantities round-trip, in the plain encoding and in JSON, and
`DecodeUint64` accepts no encoding of a quantity but its own, up to the case
of the letters. -/
theorem uint64_round_trip (i : UInt64) :
    DecodeUint64 (EncodeUint64 i) = .ok i ∧ Uint64.UnmarshalJSON (Uint64.MarshalJSON i) = .ok i ∧
      ∀ s, DecodeUint64 s = .ok i → s.map toLower = EncodeUint64 i :=
  ⟨DecodeUint64_EncodeUint64 i, Uint64.UnmarshalJSON_MarshalJSON i, fun _ h => DecodeUint64_canonical h⟩

/-! ### Big quantities -/

theorem two_pow_64 : (2 : Nat) ^ 64 = 16 ^ 16 := by norm_num

/-- The word loop reads a digit string in groups of `bigWordNibbles` from the
right, into the words of its value. -/
theorem decodeWords_hexDigits (ds : List Nat) (hds : ∀ d ∈ ds, d < 16) (count : Nat) :
    ∀ e, e ≤ ds.length → e ≤ bigWordNibbles * count →
      ∃ ws, decodeWords (ds.map hexDigit) count e = .ok ws ∧
        Nat.ofDigits (2 ^ 64) ws = value 16 (ds.take e) := by
  induction count with
  | zero =>
    intro e _ he
    obtain rfl : e = 0 := by simpa using he
    exact ⟨[], rfl, by simp⟩
  | succ count ih =>
    intro e hlen he
    obtain ⟨ws, hws, hval⟩ :=
      ih (e - bigWordNibbles) (by omega) (by rw [Nat.mul_succ] at he; omega)
    have hgroup : ((ds.map hexDigit).take e).drop (e - bigWordNibbles) =
        ((ds.take e).drop (e - bigWordNibbles)).map hexDigit := by
      rw [← List.map_take, ← List.map_drop]
    have hdig : ∀ d ∈ (ds.take e).drop (e - bigWordNibbles), d < 16 :=
      fun d hd => hds d (List.mem_of_mem_take (List.mem_of_mem_drop hd))
    refine ⟨value 16 ((ds.take e).drop (e - bigWordNibbles)) :: ws, ?_, ?_⟩
    · rw [decodeWords, hgroup, decodeWord_hexDigits _ hdig]
      simp [hws]
    · rw [Nat.ofDigits_cons, hval, value_take_eq bigWordNibbles hlen, two_pow_64, bigWordNibbles]
      ring

theorem decodeBigRaw_hexDigits (ds : List Nat) (hds : ∀ d ∈ ds, d < 16) :
    decodeBigRaw (ds.map hexDigit) = .ok (value 16 ds) := by
  obtain ⟨ws, hws, hval⟩ := decodeWords_hexDigits ds hds (ds.length / bigWordNibbles + 1)
    ds.length le_rfl (by simp only [bigWordNibbles]; omega)
  rw [List.take_length] at hval
  rw [decodeBigRaw, List.length_map, hws, except_ok_bind, hval]
  rfl

theorem flatMap_formatUint (ws : List Nat) :
    ws.reverse.flatMap formatUint = (printWords 16 ws).map hexDigit := by
  simp only [printWords, List.map_flatMap]
  rfl

theorem EncodeBig_of_ne {x : Int} (hx : x.natAbs ≠ 0) :
    EncodeBig x = ascii ['0', 'x'] ++ (printWords 16 (Bits x.natAbs)).map hexDigit := by
  rw [EncodeBig, if_neg (mt Nat.size_eq_zero.mp hx), flatMap_formatUint]

/-- `DecodeBig` reads what `EncodeBig` prints as the words printed one after
another, each without its leading zeros. -/
theorem DecodeBig_EncodeBig (x : Int) :
    DecodeBig (EncodeBig x) = .ok (value 16 (printWords 16 (Bits x.natAbs))) := by
  by_cases hx : x.natAbs = 0
  · have hsize : x.natAbs.size = 0 := Nat.size_eq_zero.mpr hx
    rw [EncodeBig, if_pos hsize, hx]
    rfl
  · have hne : Bits x.natAbs ≠ [] := Nat.digits_ne_nil_iff_ne_zero.mpr hx
    have hcheck := checkNumber_0x (printWords 16 (Bits x.natAbs))
      (fun _ hd => lt_of_mem_printWords (by norm_num) hd) (printWords_ne_nil hne)
      (fun _ => head?_printWords_ne_zero hne (Nat.getLast_digit_ne_zero _ hx))
    rw [EncodeBig_of_ne hx, DecodeBig, hcheck,
      except_ok_bind, decodeBigRaw_hexDigits _ (fun _ hd => lt_of_mem_printWords (by norm_num) hd)]

/-- `DecodeBig (EncodeBig x) = x` exactly when every word of `x` below its top
word is printed with all its nibbles. -/
theorem DecodeBig_EncodeBig_iff (x : Int) (hx : 0 ≤ x) :
    DecodeBig (EncodeBig x) = .ok x ↔
      ∀ w ∈ (Bits x.natAbs).dropLast, (formatUint w).length = bigWordNibbles := by
  have hws : ∀ w ∈ Bits x.natAbs, w < 16 ^ 16 :=
    fun w hw => two_pow_64 ▸ Nat.digits_lt_base (by norm_num) hw
  have hlast : ∀ h : Bits x.natAbs ≠ [], (Bits x.natAbs).getLast h ≠ 0 :=
    fun h => Nat.getLast_digit_ne_zero _ (Nat.digits_ne_nil_iff_ne_zero.mp h)
  have hvalue : Nat.ofDigits (16 ^ 16) (Bits x.natAbs) = x.natAbs := by
    rw [← two_pow_64]
    exact Nat.ofDigits_digits _ _
  have key := value_printWords_eq_iff (b := 16) (k := 16) (by norm_num) (by norm_num) _ hws hlast
  rw [hvalue] at key
  simp only [formatUint, List.length_map, bigWordNibbles]
  rw [DecodeBig_EncodeBig, ← key, Except.ok.injEq]
  omega

theorem Big.MarshalJSON_some (x : Int) (hx : 0 ≤ x) :
    Big.MarshalJSON (some x) = .ok (quote (EncodeBig x)) := by
  simp only [Big.MarshalJSON, EncodeBig, if_neg (not_lt.mpr hx)]
  split_ifs <;> rfl

theorem Big.UnmarshalJSON_quote (s : List UInt8) : Big.UnmarshalJSON (quote s) = DecodeBig s := by
  rw [Big.UnmarshalJSON, checkNumberJSON_quote]
  rfl

/-- The JSON of `Big` round-trips exactly when `EncodeBig` does. -/
theorem Big.UnmarshalJSON_MarshalJSON_iff (x : Int) (hx : 0 ≤ x) :
    (Big.MarshalJSON (some x) >>= Big.UnmarshalJSON) = .ok x ↔
      ∀ w ∈ (Bits x.natAbs).dropLast, (formatUint w).length = bigWordNibbles := by
  rw [Big.MarshalJSON_some x hx, except_ok_bind, Big.UnmarshalJSON_quote]
  exact DecodeBig_EncodeBig_iff x hx

/-- Two words, the lower one with its top nibble set, round-trip. -/
theorem Big.UnmarshalJSON_MarshalJSON_two_words :
    (Big.MarshalJSON (some (2 ^ 64 + 2 ^ 63)) >>= Big.UnmarshalJSON) = .ok (2 ^ 64 + 2 ^ 63) := by
  have hbits : Bits (2 ^ 64 + 2 ^ 63 : Int).natAbs = [2 ^ 63, 1] := by norm_num [Bits]
  have hlen : (formatUint (2 ^ 63)).length = bigWordNibbles := by
    norm_num [formatUint, minimal, bigWordNibbles]
  refine (Big.UnmarshalJSON_MarshalJSON_iff _ (by norm_num)).mpr fun w hw => ?_
  -- only the lower word is below the top one
  rw [hbits] at hw
  simp only [List.dropLast_cons_cons, List.dropLast_singleton, List.mem_singleton] at hw
  rw [hw, hlen]

/-- `2 ^ 64` is printed as `16` is, and read back as `16`, by `DecodeBig` and by
the JSON of `Big`. -/
theorem EncodeBig_two_pow_64 :
    EncodeBig (2 ^ 64) = EncodeBig 16 ∧ DecodeBig (EncodeBig (2 ^ 64)) = .ok 16 ∧
      (Big.MarshalJSON (some (2 ^ 64)) >>= Big.UnmarshalJSON) = .ok 16 := by
  have hmin0 : minimal 16 0 = [0] := rfl
  have hmin1 : minimal 16 1 = [1] := by norm_num [minimal]
  have hmin16 : minimal 16 16 = [1, 0] := by norm_num [minimal]
  have hbits : Bits (2 ^ 64) = [0, 1] := by norm_num [Bits]
  have hbits16 : Bits 16 = [16] := by norm_num [Bits]
  have henc : EncodeBig (2 ^ 64) = ascii ['0', 'x', '1', '0'] := by
    rw [EncodeBig_of_ne (by norm_num), show (2 ^ 64 : Int).natAbs = 2 ^ 64 by norm_num, hbits]
    simp only [printWords, List.reverse_cons, List.reverse_nil, List.nil_append,
      List.cons_append, List.flatMap_cons, List.flatMap_nil, hmin0, hmin1]
    rfl
  have henc16 : EncodeBig 16 = ascii ['0', 'x', '1', '0'] := by
    rw [EncodeBig_of_ne (by norm_num), show (16 : Int).natAbs = 16 from rfl, hbits16]
    simp only [printWords, List.reverse_cons, List.reverse_nil, List.nil_append,
      List.flatMap_cons, List.flatMap_nil, hmin16]
    rfl
  refine ⟨henc.trans henc16.symm, by rw [henc]; decide, ?_⟩
  rw [Big.MarshalJSON_some _ (by norm_num), except_ok_bind, Big.UnmarshalJSON_quote, henc]
  decide

end GoEthereum.Hexutil
