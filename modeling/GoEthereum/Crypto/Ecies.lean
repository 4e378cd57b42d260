import GoEthereum.Data.BigEndian
import GoEthereum.Data.StateM
import Mathlib

/-!
ECIES encryption of `crypto/ecies/ecies.go`, as the whisper and devp2p code
call it on secp256k1 keys: the framing `R ‖ IV ‖ C ‖ tag`, the length
checks, the key derivation and the two places where the Go runtime panics
(`Fault.panic`), around abstract curve, hash, HMAC and AES-CTR primitives.

`Encrypt` of the empty message returns neither a ciphertext nor an error
(`encrypt_empty`); a ciphertext whose body is 1 to 15 bytes long passes
every check of `Decrypt` once its tag is right, which anyone who knows the
public key can arrange, and then panics (`decrypt_short_body_panics`). For
every nonempty message decryption inverts encryption (`decrypt_encrypt`).
-/

namespace GoEthereum.Crypto.Ecies

abbrev Bytes := List UInt8

inductive EciesError where
  | ErrInvalidMessage
  | ErrInvalidPublicKey
  | ErrInvalidCurve
  | ErrSharedKeyTooBig
  | ErrSharedKeyIsPointAtInfinity
  | ErrKeyDataTooLong
  | ErrUnsupportedECIESParameters
  deriving DecidableEq, Repr

/-- How a call ends when it has no result: a returned error, or a runtime
panic with its message. -/
inductive Fault where
  | error (e : EciesError)
  | panic (message : String)
  deriving DecidableEq, Repr

/-- `ECIESParams`, with the two sizes of its hash that the code reads in place
of the hash itself. -/
structure ECIESParams where
  BlockSize : Nat
  KeyLen : Nat
  /-- `Hash().Size()` -/
  HashSize : Nat
  /-- `Hash().BlockSize()` -/
  HashBlockSize : Nat
  deriving DecidableEq, Repr

def ECIES_AES128_SHA256 : ECIESParams where
  BlockSize := 16
  KeyLen := 16
  HashSize := 32
  HashBlockSize := 64

/-- The curve and the primitives of one parameter set. -/
structure Primitives (Point Scalar : Type) where
  /-- `Curve.Params().BitSize` -/
  BitSize : Nat
  /-- `ParamsFromCurve(curve)` -/
  paramsFromCurve : Option ECIESParams
  /-- The public key of a scalar. -/
  ScalarBaseMult : Scalar → Point
  /-- The x coordinate of `ScalarMult(P, d)`, `none` at infinity. -/
  ScalarMultX : Point → Scalar → Option Nat
  /-- `elliptic.Marshal` -/
  Marshal : Point → Bytes
  /-- `elliptic.Unmarshal`, `none` for a nil `X` -/
  Unmarshal : Bytes → Option Point
  IsOnCurve : Point → Bool
  /-- `params.Hash()` over the bytes written to it -/
  Hash : Bytes → Bytes
  /-- `hmac.New(params.Hash, key)` over the bytes written to it -/
  HMAC : Bytes → Bytes → Bytes
  /-- `cipher.NewCTR(params.Cipher(key), iv).XORKeyStream` -/
  XORKeyStream : Bytes → Bytes → Bytes → Bytes
  /-- The capacity the runtime's `growslice` gives a byte slice of capacity
  `cap` that `append` grows to `len` bytes -/
  growslice : Nat → Nat → Nat

structure PublicKey (Point : Type) where
  point : Point
  Params : Option ECIESParams

/-- A private key; its public key comes last because the field's name would
shadow its type. -/
structure PrivateKey (Point Scalar : Type) where
  D : Scalar
  PublicKey : PublicKey Point

variable {Point Scalar : Type} (E : Primitives Point Scalar)

/-- `pub.Params`, or `ParamsFromCurve(pub.Curve)` when it is nil. -/
def paramsOf (pub : PublicKey Point) : Except Fault ECIESParams :=
  match pub.Params with
  | some params => .ok params
  | none =>
    match E.paramsFromCurve with
    | some params => .ok params
    | none => .error (.error .ErrUnsupportedECIESParameters)

def MaxSharedKeyLength : Nat :=
  (E.BitSize + 7) / 8

/-- `PrivateKey.GenerateShared`: the x coordinate of `d·pub`, left-padded to
`skLen + macLen` bytes. -/
def GenerateShared (d : Scalar) (pub : Point) (skLen macLen : Nat) : Except Fault Bytes :=
  if skLen + macLen > MaxSharedKeyLength E then .error (.error .ErrSharedKeyTooBig)
  else
    match E.ScalarMultX pub d with
    | none => .error (.error .ErrSharedKeyIsPointAtInfinity)
    | some x =>
      let skBytes := BigEndian.minimal x
      -- `copy(sk[len(sk)-len(skBytes):], skBytes)`
      if skBytes.length > skLen + macLen then .error (.panic "slice bounds out of range")
      else .ok (List.replicate (skLen + macLen - skBytes.length) 0 ++ skBytes)

/-- `append(k, b...)` on a byte slice `k` of capacity `cap`: the capacity
changes only when the bytes do not fit. -/
def appendSlice (k : Bytes × Nat) (b : Bytes) : Bytes × Nat :=
  let len := k.1.length + b.length
  (k.1 ++ b, if len ≤ k.2 then k.2 else E.growslice k.2 len)

/-- `concatKDF`: the hashes of `counter ‖ z ‖ s1` for the counters `1, 2, ...`,
appended to `make([]byte, 0)` and cut to `kdLen` bytes. The cut `k[:kdLen]`
is bounded by the capacity, not the length, and past the bytes it reads the
zeros `growslice` cleared. `incCounter` counts big-endian modulo `2^32`,
which is what `BigEndian.bytes 4` keeps of the counter. -/
def concatKDF (params : ECIESParams) (z s1 : Bytes) (kdLen : Nat) : Except Fault Bytes :=
  let reps := ((kdLen + 7) * 8) / (params.HashBlockSize * 8)
  if reps > 2 ^ 32 - 1 then .error (.error .ErrKeyDataTooLong)
  else
    let k := (List.range (reps + 1)).foldl
      (fun k i => appendSlice E k (E.Hash (BigEndian.bytes 4 (i + 1) ++ z ++ s1))) ([], 0)
    if k.2 < kdLen then .error (.panic "slice bounds out of range")
    else .ok ((k.1 ++ List.replicate (k.2 - k.1.length) 0).take kdLen)

def messageTag (km msg shared : Bytes) : Bytes :=
  E.HMAC km (msg ++ shared)

/-- `symEncrypt` with the IV that `generateIV` read. -/
def symEncrypt (key iv m : Bytes) : Bytes :=
  iv ++ E.XORKeyStream key iv m

/-- `symDecrypt` on `ct = c[mStart:mEnd]`. The slice `ct[:BlockSize]` may run
past the end of `ct` into its capacity, which holds `spare`, the tag after it;
`make([]byte, len(ct)-BlockSize)` then panics when `ct` is shorter than a
block. -/
def symDecrypt (params : ECIESParams) (key ct spare : Bytes) : Except Fault Bytes :=
  if ct.length + spare.length < params.BlockSize then .error (.panic "slice bounds out of range")
  else if ct.length < params.BlockSize then .error (.panic "makeslice: len out of range")
  else .ok (E.XORKeyStream key ((ct ++ spare).take params.BlockSize) (ct.drop params.BlockSize))

/-- `Encrypt` with the ephemeral scalar `r` and the IV it reads from `rand`.
`none` is a nil ciphertext. -/
def Encrypt (r : Scalar) (iv : Bytes) (pub : PublicKey Point) (m s1 s2 : Bytes) :
    Except Fault (Option Bytes) := do
  let params ← paramsOf E pub
  let z ← GenerateShared E r pub.point params.KeyLen params.KeyLen
  let K ← concatKDF E params z s1 (params.KeyLen + params.KeyLen)
  let Ke := K.take params.KeyLen
  let Km := E.Hash (K.drop params.KeyLen)
  let em := symEncrypt E Ke iv m
  -- `if err != nil || len(em) <= params.BlockSize { return }`, with `ct` still nil
  if em.length ≤ params.BlockSize then return none
  let d := messageTag E Km em s2
  return some (E.Marshal (E.ScalarBaseMult r) ++ em ++ d)

/-- `PrivateKey.Decrypt`. -/
def Decrypt (prv : PrivateKey Point Scalar) (c s1 s2 : Bytes) : Except Fault Bytes := do
  if c.length = 0 then throw (.error .ErrInvalidMessage)
  let params ← paramsOf E prv.PublicKey
  let hLen := params.HashSize
  -- `switch c[0]`: the length of an uncompressed point for every accepted tag
  let first := c.headD 0
  if ¬(first = 2 ∨ first = 3 ∨ first = 4) then throw (.error .ErrInvalidPublicKey)
  let rLen := (E.BitSize + 7) / 4
  if c.length < rLen + hLen + 1 then throw (.error .ErrInvalidMessage)
  let mStart := rLen
  let mEnd := c.length - hLen
  let R ←
    match E.Unmarshal (c.take rLen) with
    | none => throw (.error .ErrInvalidPublicKey)
    | some R => pure R
  if ¬E.IsOnCurve R then throw (.error .ErrInvalidCurve)
  let z ← GenerateShared E prv.D R params.KeyLen params.KeyLen
  let K ← concatKDF E params z s1 (params.KeyLen + params.KeyLen)
  let Ke := K.take params.KeyLen
  let Km := E.Hash (K.drop params.KeyLen)
  let body := (c.take mEnd).drop mStart
  let d := messageTag E Km body s2
  if c.drop mEnd ≠ d then throw (.error .ErrInvalidMessage)
  symDecrypt E params Ke body (c.drop mEnd)

open GoEthereum.StateM (except_ok_bind except_pure)

/-! ### What the proofs assume of the primitives

The equations the real secp256k1 with SHA-256, HMAC-SHA-256 and AES-128-CTR
satisfy and the proofs below use: Diffie-Hellman agreement, the uncompressed
encoding of a point and its inverse, the output lengths, that the key
stream applied twice gives the input back, and that a grown slice holds
its bytes. -/

structure Lawful (E : Primitives Point Scalar) : Prop where
  bitSize : E.BitSize = 256
  agree : ∀ r d, E.ScalarMultX (E.ScalarBaseMult d) r = E.ScalarMultX (E.ScalarBaseMult r) d
  unmarshal_marshal : ∀ P, E.Unmarshal (E.Marshal P) = some P
  length_marshal : ∀ P, (E.Marshal P).length = 65
  headD_marshal : ∀ P, (E.Marshal P).headD 0 = 4
  isOnCurve : ∀ r, E.IsOnCurve (E.ScalarBaseMult r) = true
  length_hash : ∀ bs, (E.Hash bs).length = 32
  length_hmac : ∀ k bs, (E.HMAC k bs).length = 32
  length_xor : ∀ k iv bs, (E.XORKeyStream k iv bs).length = bs.length
  xor_xor : ∀ k iv bs, E.XORKeyStream k iv (E.XORKeyStream k iv bs) = bs
  le_growslice : ∀ cap len, len ≤ E.growslice cap len

section Steps

variable {E}

/-- Both ends of the key agreement compute one shared secret. -/
theorem generateShared_comm (hl : Lawful E) (d r : Scalar) (n : Nat) :
    GenerateShared E d (E.ScalarBaseMult r) n n = GenerateShared E r (E.ScalarBaseMult d) n n := by
  simp only [GenerateShared, hl.agree r d]

/-- For AES-128 keys a single SHA-256 block is derived. -/
theorem concatKDF_eq (hl : Lawful E) (z s1 : Bytes) :
    concatKDF E ECIES_AES128_SHA256 z s1 32 = .ok (E.Hash (BigEndian.bytes 4 1 ++ z ++ s1)) := by
  have hcap := hl.le_growslice 0 (E.Hash (BigEndian.bytes 4 1 ++ z ++ s1)).length
  rw [hl.length_hash] at hcap
  simp [concatKDF, appendSlice, ECIES_AES128_SHA256, hl.length_hash, Nat.not_lt.mpr hcap]

theorem length_messageTag (hl : Lawful E) (km msg shared : Bytes) :
    (messageTag E km msg shared).length = 32 :=
  hl.length_hmac _ _

theorem length_symEncrypt (hl : Lawful E) (key iv m : Bytes) :
    (symEncrypt E key iv m).length = iv.length + m.length := by
  simp [symEncrypt, hl.length_xor]

/-- A body shorter than a block, with the tag after it: the IV is cut from
the body and the tag, and the plaintext's length is negative. -/
theorem symDecrypt_short {key body tag : Bytes} (hbody : body.length < 16)
    (htag : tag.length = 32) :
    symDecrypt E ECIES_AES128_SHA256 key body tag = .error (.panic "makeslice: len out of range") := by
  have hcap : ¬body.length + tag.length < ECIES_AES128_SHA256.BlockSize := by
    simp only [ECIES_AES128_SHA256]
    omega
  have hshort : body.length < ECIES_AES128_SHA256.BlockSize := hbody
  rw [symDecrypt, if_neg hcap, if_pos hshort]

theorem symDecrypt_of_le {key body tag : Bytes} (hbody : 16 ≤ body.length) :
    symDecrypt E ECIES_AES128_SHA256 key body tag =
      .ok (E.XORKeyStream key (body.take 16) (body.drop 16)) := by
  have hcap : ¬body.length + tag.length < ECIES_AES128_SHA256.BlockSize := by
    simp only [ECIES_AES128_SHA256]
    omega
  have hlen : ¬body.length < ECIES_AES128_SHA256.BlockSize := Nat.not_lt.mpr hbody
  have htake : (body ++ tag).take ECIES_AES128_SHA256.BlockSize = body.take 16 :=
    List.take_append_of_le_length hbody
  rw [symDecrypt, if_neg hcap, if_neg hlen, htake]
  rfl

/-- `Decrypt` on a point, a nonempty body and a tag of the hash's length:
every check before the shared secret passes, and what is left is the key
derivation, the tag comparison and `symDecrypt`. -/
theorem decrypt_frame (hl : Lawful E) (prv : PrivateKey Point Scalar)
    (hparams : paramsOf E prv.PublicKey = .ok ECIES_AES128_SHA256) (R : Point)
    (hR : E.IsOnCurve R = true) {body tag : Bytes} (hbody : 0 < body.length)
    (htag : tag.length = 32) (s1 s2 : Bytes) :
    Decrypt E prv (E.Marshal R ++ body ++ tag) s1 s2 = (do
      let z ← GenerateShared E prv.D R 16 16
      let K ← concatKDF E ECIES_AES128_SHA256 z s1 32
      if tag ≠ messageTag E (E.Hash (K.drop 16)) body s2 then throw (.error .ErrInvalidMessage)
      symDecrypt E ECIES_AES128_SHA256 (K.take 16) body tag) := by
  have hm := hl.length_marshal R
  set c := E.Marshal R ++ body ++ tag with hc
  have hclen : c.length = 65 + body.length + 32 := by
    simp [hc, hm, htag]
    omega
  have hrLen : (E.BitSize + 7) / 4 = 65 := by rw [hl.bitSize]
  have hfirst : c.headD 0 = 4 := by
    obtain ⟨b, bs, hbs⟩ := List.exists_cons_of_ne_nil
      (List.ne_nil_of_length_pos (by omega) : E.Marshal R ≠ [])
    have h4 := hl.headD_marshal R
    rw [hbs, List.headD_cons] at h4
    rw [hc, hbs, List.cons_append, List.cons_append, List.headD_cons, h4]
  have hc0 : ¬c.length = 0 := by omega
  have hshort : ¬c.length < 65 + 32 + 1 := by omega
  have hmEnd : c.length - 32 = 65 + body.length := by omega
  have htake : c.take 65 = E.Marshal R := by
    rw [hc, List.append_assoc, List.take_append_of_le_length (by omega),
      List.take_of_length_le (by omega)]
  have hbody' : (c.take (65 + body.length)).drop 65 = body := by
    rw [hc, List.append_assoc, ← hm, List.take_length_add_append, List.drop_left, List.take_left]
  have hdrop : c.drop (65 + body.length) = tag := by
    rw [hc, List.append_assoc, ← hm, List.drop_append]
    simp
  simp only [Decrypt, hparams, except_ok_bind, ECIES_AES128_SHA256, hrLen, hfirst, hc0, hshort,
    htake, hl.unmarshal_marshal, hR, hmEnd, hbody', hdrop, if_false, or_true, not_true_eq_false,
    except_pure, Nat.reduceAdd]

/-- `Encrypt` once the shared secret is known. -/
theorem encrypt_eq (hl : Lawful E) {pub : PublicKey Point}
    (hparams : paramsOf E pub = .ok ECIES_AES128_SHA256) {r : Scalar} {z : Bytes}
    (hz : GenerateShared E r pub.point 16 16 = .ok z) (iv m s1 s2 : Bytes) :
    Encrypt E r iv pub m s1 s2 =
      let K := E.Hash (BigEndian.bytes 4 1 ++ z ++ s1)
      let em := symEncrypt E (K.take 16) iv m
      if em.length ≤ 16 then .ok none
      else .ok (some (E.Marshal (E.ScalarBaseMult r) ++ em ++ messageTag E (E.Hash (K.drop 16)) em s2)) := by
  have hkey : ECIES_AES128_SHA256.KeyLen = 16 := rfl
  have hblock : ECIES_AES128_SHA256.BlockSize = 16 := rfl
  simp only [Encrypt, hparams, except_ok_bind, hkey, hblock, hz, Nat.reduceAdd, concatKDF_eq hl,
    except_pure]

end Steps

/-! ### The two ends -/

section Ends

variable {E}

/-- The empty message: the body `IV ‖ C` is one block long, and `Encrypt`
returns with its ciphertext and its error both nil. -/
theorem encrypt_empty (hl : Lawful E) {pub : PublicKey Point}
    (hparams : paramsOf E pub = .ok ECIES_AES128_SHA256) {r : Scalar} {z : Bytes}
    (hz : GenerateShared E r pub.point 16 16 = .ok z) {iv : Bytes} (hiv : iv.length = 16)
    (s1 s2 : Bytes) :
    Encrypt E r iv pub [] s1 s2 = .ok none := by
  rw [encrypt_eq hl hparams hz]
  have hlen : (symEncrypt E ((E.Hash (BigEndian.bytes 4 1 ++ z ++ s1)).take 16) iv []).length ≤ 16 := by
    rw [length_symEncrypt hl, hiv]
    rfl
  simp only [if_pos hlen]

/-- The receiver derives the sender's keys from the ephemeral point. -/
theorem generateShared_receiver (hl : Lawful E) {prv : PrivateKey Point Scalar}
    (hpoint : prv.PublicKey.point = E.ScalarBaseMult prv.D) {r : Scalar} {z : Bytes}
    (hz : GenerateShared E r prv.PublicKey.point 16 16 = .ok z) :
    GenerateShared E prv.D (E.ScalarBaseMult r) 16 16 = .ok z := by
  rw [generateShared_comm hl, ← hpoint]
  exact hz

/-- A body of 1 to 15 bytes under a correct tag: `Decrypt` accepts the point,
the length and the tag, and `symDecrypt` panics. The tag is one the sender
computes from the key material of the ephemeral key it chose, as `Encrypt`
does. -/
theorem decrypt_short_body_panics (hl : Lawful E) (prv : PrivateKey Point Scalar)
    (hpoint : prv.PublicKey.point = E.ScalarBaseMult prv.D)
    (hparams : paramsOf E prv.PublicKey = .ok ECIES_AES128_SHA256) {r : Scalar} {z K : Bytes}
    (hz : GenerateShared E r prv.PublicKey.point 16 16 = .ok z) {s1 s2 : Bytes}
    (hK : concatKDF E ECIES_AES128_SHA256 z s1 32 = .ok K) {body : Bytes}
    (hbody : 0 < body.length) (hshort : body.length < 16) :
    Decrypt E prv (E.Marshal (E.ScalarBaseMult r) ++ body ++
        messageTag E (E.Hash (K.drop 16)) body s2) s1 s2 =
      .error (.panic "makeslice: len out of range") := by
  rw [decrypt_frame hl prv hparams _ (hl.isOnCurve r) hbody (length_messageTag hl _ _ _)]
  simp only [generateShared_receiver hl hpoint hz, hK, except_ok_bind, ne_eq, not_true_eq_false,
    if_false]
  exact symDecrypt_short hshort (length_messageTag hl _ _ _)

/-- For a nonempty message, `Decrypt` returns what `Encrypt` encrypted. -/
theorem decrypt_encrypt (hl : Lawful E) (prv : PrivateKey Point Scalar)
    (hpoint : prv.PublicKey.point = E.ScalarBaseMult prv.D)
    (hparams : paramsOf E prv.PublicKey = .ok ECIES_AES128_SHA256) {r : Scalar} {z : Bytes}
    (hz : GenerateShared E r prv.PublicKey.point 16 16 = .ok z) {iv : Bytes} (hiv : iv.length = 16)
    {m : Bytes} (hm : m ≠ []) (s1 s2 : Bytes) :
    ∃ ct, Encrypt E r iv prv.PublicKey m s1 s2 = .ok (some ct) ∧ Decrypt E prv ct s1 s2 = .ok m := by
  set K := E.Hash (BigEndian.bytes 4 1 ++ z ++ s1) with hKdef
  set em := symEncrypt E (K.take 16) iv m with hemdef
  have hem : em.length = 16 + m.length := by rw [hemdef, length_symEncrypt hl, hiv]
  have hmlen : 0 < m.length := List.length_pos_of_ne_nil hm
  have hlong : ¬em.length ≤ 16 := by omega
  refine ⟨E.Marshal (E.ScalarBaseMult r) ++ em ++ messageTag E (E.Hash (K.drop 16)) em s2, ?_, ?_⟩
  · rw [encrypt_eq hl hparams hz]
    simp only [← hKdef, ← hemdef, if_neg hlong]
  · rw [decrypt_frame hl prv hparams _ (hl.isOnCurve r) (by omega) (length_messageTag hl _ _ _)]
    simp only [generateShared_receiver hl hpoint hz, concatKDF_eq hl, ← hKdef, except_ok_bind,
      ne_eq, not_true_eq_false, if_false]
    -- the receiver splits `IV ‖ C` where the sender joined them
    rw [symDecrypt_of_le (by omega), hemdef, symEncrypt, List.take_left' hiv,
      List.drop_left' hiv, hl.xor_xor]

theorem decrypt_panics_and_encrypt_nil (hl : Lawful E) :
    (∀ (prv : PrivateKey Point Scalar) (r : Scalar) (z K s1 s2 body : Bytes),
      prv.PublicKey.point = E.ScalarBaseMult prv.D →
      paramsOf E prv.PublicKey = .ok ECIES_AES128_SHA256 →
      GenerateShared E r prv.PublicKey.point 16 16 = .ok z →
      concatKDF E ECIES_AES128_SHA256 z s1 32 = .ok K →
      0 < body.length → body.length < 16 →
      Decrypt E prv (E.Marshal (E.ScalarBaseMult r) ++ body ++
          messageTag E (E.Hash (K.drop 16)) body s2) s1 s2 =
        .error (.panic "makeslice: len out of range")) ∧
    (∀ (pub : PublicKey Point) (r : Scalar) (iv z s1 s2 : Bytes),
      paramsOf E pub = .ok ECIES_AES128_SHA256 → GenerateShared E r pub.point 16 16 = .ok z →
      iv.length = 16 → Encrypt E r iv pub [] s1 s2 = .ok none) := by
  refine ⟨?_, ?_⟩
  · intro prv r z K s1 s2 body hpoint hparams hz hK hbody hshort
    exact decrypt_short_body_panics hl prv hpoint hparams hz hK hbody hshort
  · intro pub r iv z s1 s2 hparams hz hiv
    exact encrypt_empty hl hparams hz hiv s1 s2

end Ends

/-! ### Primitives that satisfy the assumptions -/

/-- Constant primitives: they satisfy `Lawful`, so its assumptions can all
hold at once. -/
def constantPrimitives : Primitives Unit Unit where
  BitSize := 256
  paramsFromCurve := some ECIES_AES128_SHA256
  ScalarBaseMult _ := ()
  ScalarMultX _ _ := some 0
  Marshal _ := 4 :: List.replicate 64 0
  Unmarshal _ := some ()
  IsOnCurve _ := true
  Hash _ := List.replicate 32 0
  HMAC _ _ := List.replicate 32 0
  XORKeyStream _ _ bs := bs
  growslice _ len := len

theorem lawful_constantPrimitives : Lawful constantPrimitives where
  bitSize := rfl
  agree _ _ := rfl
  unmarshal_marshal _ := rfl
  length_marshal _ := by simp [constantPrimitives]
  headD_marshal _ := rfl
  isOnCurve _ := rfl
  length_hash _ := by simp [constantPrimitives]
  length_hmac _ _ := by simp [constantPrimitives]
  length_xor _ _ _ := rfl
  xor_xor _ _ _ := rfl
  le_growslice _ _ := le_refl _

theorem decrypt_panics_and_encrypt_nil_constant :
    Decrypt constantPrimitives ⟨(), ⟨(), none⟩⟩
        (4 :: List.replicate 64 0 ++ [7] ++ List.replicate 32 0) [] [] =
      .error (.panic "makeslice: len out of range") ∧
    Encrypt constantPrimitives () (List.replicate 16 0) ⟨(), none⟩ [] [] [] = .ok none :=
  ⟨(decrypt_panics_and_encrypt_nil lawful_constantPrimitives).1 ⟨(), ⟨(), none⟩⟩ ()
      (List.replicate 32 0) (List.replicate 32 0) [] [] [7] rfl rfl (by decide) (by decide)
      (by decide) (by decide),
    (decrypt_panics_and_encrypt_nil lawful_constantPrimitives).2 ⟨(), none⟩ ()
      (List.replicate 16 0) (List.replicate 32 0) [] [] rfl (by decide) (by decide)⟩

end GoEthereum.Crypto.Ecies
