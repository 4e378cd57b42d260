import GoEthereum.Rlp.Encode
import GoEthereum.Vm.Common

/-!
Transaction signing of `core/types/transaction_signing.go`. A signer hashes
the fields of a transaction other than the signature, signs the hash, and
stores the signature as `V`, `R`, `S`; `Sender` recovers the public key from
them and caches the address it derives. The three signers differ in how `V`
carries the recovery id: Frontier and Homestead store `27 + id`, the EIP-155
signer of chain `c` stores `35 + id + 2c`, unless `c = 0`, when it stores
the bare id. On recovery `V` is unpacked through `isProtectedV`,
`deriveChainId` (whose 64-bit path computes `(v - 35) / 2` in `uint64`,
wrapping for `v < 35`) and a byte cast of `(V - 2c).Uint64() - 35`.
-/

namespace GoEthereum.Types

open GoEthereum.Rlp GoEthereum.Vm

/-- `secp256k1.N`, the order of the curve's group. -/
def secp256k1N : Nat := 0xfffffffffffffffffffffffffffffffebaaedce6af48a03bbfd25e8cd0364141

/-- `secp256k1.HalfN`. -/
def secp256k1HalfN : Nat := 0x7fffffffffffffffffffffffffffffff5d576e7357a4501ddfe92f46681b20a0

/-- `txdata`: a nil `Recipient` is a contract creation. -/
structure Txdata where
  accountNonce : Nat
  price : Nat
  gasLimit : Nat
  recipient : Option Nat
  amount : Nat
  payload : List UInt8
  V : Nat
  R : Nat
  S : Nat
  deriving Repr, DecidableEq

/-- The three signers; `eip155 chainId` is `NewEIP155Signer(chainId)`, whose
`chainIdMul` is `chainId * 2`. -/
inductive Signer where
  | frontier
  | homestead
  | eip155 (chainId : Nat)
  deriving Repr, DecidableEq

/-- `Transaction` with its `from` cache: the signer that derived the sender,
and the sender. -/
structure Transaction where
  data : Txdata
  fromCache : Option (Signer × Nat)
  deriving Repr, DecidableEq

/-- The errors `PublicKey` returns. -/
inductive SigError where
  | invalidSig
  | invalidChainId
  | recoverFailed
  | invalidPublicKey
  deriving Repr, DecidableEq

/-- The cryptography a signer uses: `keccak256` is `BytesToBig` of
`crypto.Keccak256`, `Sign` and `Ecrecover` are `crypto.Sign` and
`crypto.Ecrecover` on a hash. -/
structure Crypto (Key : Type) where
  keccak256 : List UInt8 → Nat
  Sign : Nat → Key → List UInt8
  Ecrecover : Nat → List UInt8 → Option (List UInt8)

variable {Key : Type}

/-! ### Hashing -/

def rlpHash (c : Crypto Key) (x : Value) : Nat := c.keccak256 (encodeToBytes x)

/-- A `*common.Address` with the `rlp:"nil"` tag: the empty string for nil. -/
def recipientBytes : Option Nat → List UInt8
  | none => []
  | some a => BigEndian.bytes 20 a

/-- The fields every signer hashes. -/
def Txdata.signFields (d : Txdata) : List Value :=
  [.bytes (bigBytes d.accountNonce), .bytes (bigBytes d.price), .bytes (bigBytes d.gasLimit),
    .bytes (recipientBytes d.recipient), .bytes (bigBytes d.amount), .bytes d.payload]

/-- `Hash`: the Homestead signer hashes as the Frontier one, the EIP-155
signer appends the chain id and two zeros. -/
def Signer.Hash (c : Crypto Key) : Signer → Transaction → Nat
  | .eip155 chainId, tx =>
      rlpHash c (.list (tx.data.signFields ++ [.bytes (bigBytes chainId), .bytes [], .bytes []]))
  | _, tx => rlpHash c (.list tx.data.signFields)

/-! ### The signature values -/

/-- `crypto.ValidateSignatureValues`. -/
def ValidateSignatureValues (v : UInt8) (r s : Nat) (homestead : Bool) : Bool :=
  if r < 1 ∨ s < 1 then false
  else if homestead ∧ s > secp256k1HalfN then false
  else r < secp256k1N ∧ s < secp256k1N ∧ (v = 0 ∨ v = 1)

/-- `big.Int.Uint64`: the low 64 bits of the absolute value. -/
def Uint64 (x : Int) : UInt64 := x.natAbs.toUInt64

/-- `deriveChainId`. -/
def deriveChainId (v : Nat) : Nat :=
  if v.size ≤ 64 then
    let v := v.toUInt64
    if v = 27 ∨ v = 28 then 0 else ((v - 35) / 2).toNat
  else (v - 35) / 2

/-- `isProtectedV`: anything but 27 and 28 is protected. -/
def isProtectedV (V : Nat) : Bool :=
  if V.size ≤ 8 then V ≠ 27 ∧ V ≠ 28 else true

def Transaction.ChainId (tx : Transaction) : Nat := deriveChainId tx.data.V

def Transaction.Protected (tx : Transaction) : Bool := isProtectedV tx.data.V

/-- The 65 bytes `[R || S || V]` a signer hands to `Ecrecover`. -/
def sigBytes (R S : Nat) (V : UInt8) : List UInt8 :=
  LeftPadBytes (bigBytes R) 32 ++ LeftPadBytes (bigBytes S) 32 ++ [V]

/-- The tail common to every `PublicKey`: check the values, recover the key
from the hash, and insist on an uncompressed key. -/
def recoverPlain (c : Crypto Key) (hash : Nat) (V : UInt8) (R S : Nat) (homestead : Bool) :
    Except SigError (List UInt8) :=
  if !ValidateSignatureValues V R S homestead then .error .invalidSig
  else
    match c.Ecrecover hash (sigBytes R S V) with
    | none => .error .recoverFailed
    | some pub => if pub.head? = some 4 then .ok pub else .error .invalidPublicKey

/-- The `PublicKey` of the Frontier and Homestead signers, which differ only
in the low-`S` rule: `V` must fit a byte and is `27` plus the recovery id. -/
def plainPublicKey (c : Crypto Key) (homestead : Bool) (tx : Transaction) :
    Except SigError (List UInt8) :=
  if tx.data.V.size > 8 then .error .invalidSig
  else recoverPlain c (rlpHash c (.list tx.data.signFields)) (tx.data.V.toUInt64 - 27).toUInt8
    tx.data.R tx.data.S homestead

/-- `FrontierSigner.PublicKey`. -/
def frontierPublicKey (c : Crypto Key) (tx : Transaction) : Except SigError (List UInt8) :=
  plainPublicKey c false tx

/-- `HomesteadSigner.PublicKey`. -/
def homesteadPublicKey (c : Crypto Key) (tx : Transaction) : Except SigError (List UInt8) :=
  plainPublicKey c true tx

/-- `EIP155Signer.PublicKey`: Homestead's for an unprotected transaction. -/
def eip155PublicKey (c : Crypto Key) (chainId : Nat) (tx : Transaction) :
    Except SigError (List UInt8) :=
  if !tx.Protected then homesteadPublicKey c tx
  else if tx.ChainId ≠ chainId then .error .invalidChainId
  else recoverPlain c ((Signer.eip155 chainId).Hash c tx)
    (Uint64 ((tx.data.V : Int) - chainId * 2) - 35).toUInt8 tx.data.R tx.data.S true

def Signer.PublicKey (c : Crypto Key) : Signer → Transaction → Except SigError (List UInt8)
  | .frontier => frontierPublicKey c
  | .homestead => homesteadPublicKey c
  | .eip155 chainId => eip155PublicKey c chainId

/-- `WithSignature`: a copy of the transaction, with empty caches, carrying
`sig`; a signature that is not 65 bytes long is a panic (`none`). -/
def Signer.WithSignature (tx : Transaction) (sig : List UInt8) : Signer → Option Transaction
  | .eip155 chainId =>
      if h : sig.length = 65 then
        -- `[]byte{sig[64]}`, then `int64(sig[64] + 35)` plus `chainIdMul` for a chain id
        let V := if 0 < chainId.size then (sig[64] + 35).toNat + chainId * 2 else sig[64].toNat
        some ⟨withSig tx.data sig V, none⟩
      else none
  | _ =>
      if h : sig.length = 65 then some ⟨withSig tx.data sig (sig[64] + 27).toNat, none⟩
      else none
where
  withSig (d : Txdata) (sig : List UInt8) (V : Nat) : Txdata :=
    { d with
      R := BytesToBig (sig.take 32)
      S := BytesToBig ((sig.drop 32).take 32)
      V := V }

/-- `Equal`: the same kind of signer, and for EIP-155 the same chain id. -/
def Signer.Equal : Signer → Signer → Bool
  | .frontier, .frontier => true
  | .homestead, .homestead => true
  | .eip155 c, .eip155 c' => c == c'
  | _, _ => false

/-- `SignTx`. -/
def SignTx (c : Crypto Key) (tx : Transaction) (s : Signer) (prv : Key) : Option Transaction :=
  s.WithSignature tx (c.Sign (s.Hash c tx) prv)

/-- The address of a public key: the last 20 bytes of the hash of the key
without its `0x04` prefix. -/
def pubkeyAddress (c : Crypto Key) (pub : List UInt8) : Nat := c.keccak256 (pub.drop 1) % 2 ^ 160

/-- `Sender`: the cached sender if the signer that derived it `Equal`s this
one, otherwise the address of the recovered key, which is then cached. -/
def Sender (c : Crypto Key) (signer : Signer) (tx : Transaction) :
    Except SigError Nat × Transaction :=
  match tx.fromCache with
  | some (cached, addr) =>
      if cached.Equal signer then (.ok addr, tx) else derive
  | none => derive
where
  derive : Except SigError Nat × Transaction :=
    match signer.PublicKey c tx with
    | .error e => (.error e, tx)
    | .ok pub => (.ok (pubkeyAddress c pub), { tx with fromCache := some (signer, pubkeyAddress c pub) })

/-! ### What signing asks of the curve -/

/-- `crypto.Sign` and `crypto.Ecrecover` are inverse: a signature is
`[R || S || V]` with a recovery id `V` of 0 or 1, `R` in range and a low `S`,
and recovering it gives back the key's public key, which is uncompressed. -/
structure Signs (c : Crypto Key) (pub : Key → List UInt8) : Prop where
  sign_eq : ∀ h k, ∃ r s v, c.Sign h k = BigEndian.bytes 32 r ++ BigEndian.bytes 32 s ++ [v] ∧
    1 ≤ r ∧ r < secp256k1N ∧ 1 ≤ s ∧ s ≤ secp256k1HalfN ∧ v ≤ 1
  recover : ∀ h k, c.Ecrecover h (c.Sign h k) = some (pub k)
  uncompressed : ∀ k, (pub k).head? = some 4

/-- A curve model that signs every hash with `R = S = 1` and recovery id 0,
and recovers exactly that signature to the key `[4]`. -/
def fixedCrypto : Crypto Unit where
  keccak256 _ := 0
  Sign _ _ := BigEndian.bytes 32 1 ++ BigEndian.bytes 32 1 ++ [0]
  Ecrecover _ sig := if sig = BigEndian.bytes 32 1 ++ BigEndian.bytes 32 1 ++ [0] then some [4]
    else none

theorem signs_fixedCrypto : Signs fixedCrypto (fun _ => [4]) where
  sign_eq _ _ := ⟨1, 1, 0, rfl, le_rfl, by unfold secp256k1N; omega, le_rfl,
    by unfold secp256k1HalfN; omega, by decide⟩
  recover _ _ := by simp [fixedCrypto]
  uncompressed _ := rfl

/-- A transfer of 1 wei to address 1 with nonce 0. -/
def transferTx : Transaction where
  data :=
    { accountNonce := 0, price := 1, gasLimit := 21000, recipient := some 1, amount := 1,
      payload := [], V := 0, R := 0, S := 0 }
  fromCache := none

/-! ### The signature bytes -/

section Bytes

variable {r s : Nat} {v : UInt8}

theorem lt_of_lt_secp256k1N {x : Nat} (hx : x < secp256k1N) : x < 256 ^ 32 := by
  unfold secp256k1N at hx
  omega

theorem lt_of_le_secp256k1HalfN {x : Nat} (hx : x ≤ secp256k1HalfN) : x < 256 ^ 32 := by
  unfold secp256k1HalfN at hx
  omega

theorem leftPad_bigBytes {x : Nat} (hx : x < 256 ^ 32) :
    LeftPadBytes (bigBytes x) 32 = BigEndian.bytes 32 x := by
  have hle := BigEndian.length_minimal_le hx
  unfold LeftPadBytes bigBytes
  rw [if_neg (by omega)]
  exact BigEndian.replicate_append_minimal hx

/-- The bytes handed to `Ecrecover` are the signature the values were read
from. -/
theorem sigBytes_eq (hr : r < 256 ^ 32) (hs : s < 256 ^ 32) :
    sigBytes r s v = BigEndian.bytes 32 r ++ BigEndian.bytes 32 s ++ [v] := by
  rw [sigBytes, leftPad_bigBytes hr, leftPad_bigBytes hs]

/-- Reading `R` and `S` back from a signature gives the values it was made
of. -/
theorem withSig_eq (hr : r < 256 ^ 32) (hs : s < 256 ^ 32) (d : Txdata) (V : Nat) :
    Signer.WithSignature.withSig d (BigEndian.bytes 32 r ++ BigEndian.bytes 32 s ++ [v]) V =
      { d with R := r, S := s, V := V } := by
  have hlr : (BigEndian.bytes 32 r).length = 32 := BigEndian.length_bytes 32 r
  have hls : (BigEndian.bytes 32 s).length = 32 := BigEndian.length_bytes 32 s
  have hR : (BigEndian.bytes 32 r ++ BigEndian.bytes 32 s ++ [v]).take 32 = BigEndian.bytes 32 r := by
    rw [List.append_assoc, List.take_left' hlr]
  have hS : ((BigEndian.bytes 32 r ++ BigEndian.bytes 32 s ++ [v]).drop 32).take 32 =
      BigEndian.bytes 32 s := by
    rw [List.append_assoc, List.drop_left' hlr, List.take_left' hls]
  simp only [Signer.WithSignature.withSig, hR, hS, BytesToBig, BigEndian.value_bytes,
    Nat.mod_eq_of_lt hr, Nat.mod_eq_of_lt hs]

theorem length_sig : (BigEndian.bytes 32 r ++ BigEndian.bytes 32 s ++ [v]).length = 65 := by
  simp

theorem getElem_sig (h : 64 < (BigEndian.bytes 32 r ++ BigEndian.bytes 32 s ++ [v]).length) :
    (BigEndian.bytes 32 r ++ BigEndian.bytes 32 s ++ [v])[64] = v := by
  simp [List.getElem_append_right]

end Bytes

/-! ### Signing -/

section Sign

variable {c : Crypto Key} {pub : Key → List UInt8}

/-- Signing keeps the hash. -/
theorem hash_signed (signer : Signer) (tx : Transaction) (r s V : Nat) :
    signer.Hash c ⟨{ tx.data with R := r, S := s, V := V }, none⟩ = signer.Hash c tx := by
  cases signer <;> rfl

theorem recid_cases {v : UInt8} (hv : v ≤ 1) : v = 0 ∨ v = 1 := by
  have : v.toNat ≤ 1 := hv
  rcases Nat.le_one_iff_eq_zero_or_eq_one.mp this with h | h
  · exact Or.inl (UInt8.toNat_inj.mp (by simpa using h))
  · exact Or.inr (UInt8.toNat_inj.mp (by simpa using h))

theorem validate_of_signs {r s : Nat} {v : UInt8} (hr₁ : 1 ≤ r) (hr : r < secp256k1N)
    (hs₁ : 1 ≤ s) (hs : s ≤ secp256k1HalfN) (hv : v ≤ 1) (homestead : Bool) :
    ValidateSignatureValues v r s homestead = true := by
  have hv' := recid_cases hv
  have hsN : s < secp256k1N := by
    unfold secp256k1N
    unfold secp256k1HalfN at hs
    omega
  unfold ValidateSignatureValues
  rw [if_neg (by omega), if_neg (by omega)]
  simp [hr, hsN, hv']

/-- Recovering a signature the key made gives the key's public key. -/
theorem recoverPlain_sign (hc : Signs c pub) {h : Nat} {k : Key} {r s : Nat} {v : UInt8}
    (hsig : c.Sign h k = BigEndian.bytes 32 r ++ BigEndian.bytes 32 s ++ [v])
    (hr : r < 256 ^ 32) (hs : s < 256 ^ 32) {homestead : Bool}
    (hval : ValidateSignatureValues v r s homestead = true) :
    recoverPlain c h v r s homestead = .ok (pub k) := by
  unfold recoverPlain
  rw [hval, sigBytes_eq hr hs, ← hsig, hc.recover]
  simp [hc.uncompressed]

/-! ### Round trips -/

/-- `Sender` of a transaction with no cached sender is the address of the
key its signer recovers. -/
theorem sender_fresh (signer : Signer) {tx : Transaction} (hfresh : tx.fromCache = none) :
    (Sender c signer tx).1 = (signer.PublicKey c tx).map (pubkeyAddress c) := by
  unfold Sender Sender.derive
  rw [hfresh]
  cases signer.PublicKey c tx <;> rfl

end Sign

/-! ### The EIP-155 `V` -/

section ChainId

/-- `deriveChainId` of a protected `V`: `(V - 35) / 2`, except that below
35 the `uint64` subtraction wraps. -/
theorem deriveChainId_cases {V : Nat} (h27 : V ≠ 27) (h28 : V ≠ 28) :
    (35 ≤ V ∧ deriveChainId V = (V - 35) / 2) ∨
      (V < 35 ∧ deriveChainId V = (2 ^ 64 + V - 35) / 2) := by
  unfold deriveChainId
  split
  · rename_i hsize
    have hlt : V < 2 ^ 64 := Nat.size_le.mp hsize
    have hne : ¬ (V.toUInt64 = 27 ∨ V.toUInt64 = 28) := by
      rintro (h | h) <;> apply_fun UInt64.toNat at h <;> simp at h <;> omega
    rw [if_neg hne]
    simp [UInt64.toNat_sub, UInt64.toNat_div]
    omega
  · rename_i hsize
    have hge : 2 ^ 64 ≤ V := by
      by_contra hlt
      exact hsize (Nat.size_le.mpr (by omega))
    exact Or.inl ⟨by omega, rfl⟩

/-- An EIP-155 `V` of `id + 35 + 2c` carries the chain id `c`. -/
theorem deriveChainId_eip155 {c id : Nat} (hid : id ≤ 1) : deriveChainId (id + 35 + c * 2) = c := by
  rcases deriveChainId_cases (V := id + 35 + c * 2) (by omega) (by omega) with ⟨-, h⟩ | ⟨hlt, -⟩
  · rw [h]
    omega
  · omega

/-- ... and the recovery id `id`. -/
theorem recid_eip155 {c : Nat} {v : UInt8} (hv : v ≤ 1) :
    (Uint64 (((v.toNat + 35 + c * 2 : Nat) : Int) - c * 2) - 35).toUInt8 = v := by
  have hint : ((v.toNat + 35 + c * 2 : Nat) : Int) - c * 2 = ((v.toNat + 35 : Nat) : Int) := by
    push_cast
    ring
  rw [hint]
  rcases recid_cases hv with rfl | rfl <;> decide

theorem isProtectedV_of_ne {V : Nat} (h27 : V ≠ 27) (h28 : V ≠ 28) : isProtectedV V = true := by
  unfold isProtectedV
  split <;> simp [h27, h28]

end ChainId

section Eip155

variable {c : Crypto Key} {pub : Key → List UInt8}

/-- Signing with the EIP-155 signer of a chain `chainId > 0` and recovering
the sender gives the key's address; the signed transaction is protected and
reports the chain id. -/
theorem sender_signTx_eip155 (hc : Signs c pub) (tx : Transaction) (k : Key) {chainId : Nat}
    (hchain : 0 < chainId) :
    ∃ tx', SignTx c tx (.eip155 chainId) k = some tx' ∧
      (Sender c (.eip155 chainId) tx').1 = .ok (pubkeyAddress c (pub k)) ∧
      tx'.Protected = true ∧ tx'.ChainId = chainId := by
  obtain ⟨r, s, v, hsig, hr₁, hr, hs₁, hs, hv⟩ := hc.sign_eq ((Signer.eip155 chainId).Hash c tx) k
  have hr' := lt_of_lt_secp256k1N hr
  have hs' := lt_of_le_secp256k1HalfN hs
  have hv' : v.toNat ≤ 1 := hv
  have hV : (v + 35).toNat = v.toNat + 35 := by
    simp [UInt8.toNat_add]
    omega
  -- `V` is `35 + id + 2 * chainId`
  refine ⟨⟨{ tx.data with R := r, S := s, V := v.toNat + 35 + chainId * 2 }, none⟩, ?_, ?_, ?_, ?_⟩
  · unfold SignTx
    rw [hsig]
    simp only [Signer.WithSignature, dif_pos length_sig, withSig_eq hr' hs',
      if_pos (Nat.size_pos.mpr hchain), getElem_sig, hV]
  · rw [sender_fresh _ rfl, Signer.PublicKey, eip155PublicKey]
    have hprot : isProtectedV (v.toNat + 35 + chainId * 2) = true :=
      isProtectedV_of_ne (by omega) (by omega)
    simp only [Transaction.Protected, Transaction.ChainId, hprot, deriveChainId_eip155 hv',
      Bool.not_true, Bool.false_eq_true, if_false, ne_eq, not_true_eq_false, recid_eip155 hv]
    rw [hash_signed, recoverPlain_sign hc hsig hr' hs' (validate_of_signs hr₁ hr hs₁ hs hv true)]
    rfl
  · show isProtectedV (v.toNat + 35 + chainId * 2) = true
    exact isProtectedV_of_ne (by omega) (by omega)
  · exact deriveChainId_eip155 hv'

/-- The transfer signed for chain 1 recovers to the address of the key
`[4]`. -/
theorem sender_signTx_eip155_transfer :
    Signs fixedCrypto (fun _ => [4]) ∧ 0 < 1 ∧
      ∃ tx', SignTx fixedCrypto transferTx (.eip155 1) () = some tx' ∧
        (Sender fixedCrypto (.eip155 1) tx').1 = .ok (pubkeyAddress fixedCrypto [4]) ∧
        tx'.Protected = true ∧ tx'.ChainId = 1 :=
  ⟨signs_fixedCrypto, Nat.one_pos,
    sender_signTx_eip155 signs_fixedCrypto transferTx () Nat.one_pos⟩

end Eip155

/-- The EIP-155 signer of chain 0 cannot recover its own signatures. With a
zero chain id `WithSignature` stores the bare recovery id as `V`;
`isProtectedV` takes 0 and 1 for protected, and `deriveChainId` computes
`(V - 35) / 2` in `uint64`, which wraps to `2^63 - 18` or `2^63 - 17`
instead of 0. So for every transaction and key, `Sender` under
`NewEIP155Signer(0)` of the transaction `SignTx` returns fails with
`ErrInvalidChainId`. -/
theorem sender_signTx_eip155_zero (hc : Signs c pub) (tx : Transaction) (k : Key) :
    ∃ tx', SignTx c tx (.eip155 0) k = some tx' ∧
      (Sender c (.eip155 0) tx').1 = .error .invalidChainId := by
  obtain ⟨r, s, v, hsig, -, hr, -, hs, hv⟩ := hc.sign_eq ((Signer.eip155 0).Hash c tx) k
  have hr' := lt_of_lt_secp256k1N hr
  have hs' := lt_of_le_secp256k1HalfN hs
  have hv' : v.toNat ≤ 1 := hv
  -- `V` is the bare recovery id
  refine ⟨⟨{ tx.data with R := r, S := s, V := v.toNat }, none⟩, ?_, ?_⟩
  · unfold SignTx
    rw [hsig]
    simp only [Signer.WithSignature, dif_pos length_sig, withSig_eq hr' hs', Nat.size_zero,
      lt_irrefl, if_false, getElem_sig]
  · have hprot : isProtectedV v.toNat = true := isProtectedV_of_ne (by omega) (by omega)
    have hchain : deriveChainId v.toNat ≠ 0 := by
      rcases deriveChainId_cases (V := v.toNat) (by omega) (by omega) with ⟨hge, -⟩ | ⟨-, hd⟩
      · omega
      · rw [hd]
        omega
    rw [sender_fresh _ rfl, Signer.PublicKey, eip155PublicKey]
    simp only [Transaction.Protected, Transaction.ChainId, hprot, Bool.not_true,
      Bool.false_eq_true, if_false]
    simp only [ne_eq, hchain, not_false_eq_true, if_true]
    rfl

theorem sender_signTx_eip155_zero_transfer :
    Signs fixedCrypto (fun _ => [4]) ∧
      ∃ tx', SignTx fixedCrypto transferTx (.eip155 0) () = some tx' ∧
        (Sender fixedCrypto (.eip155 0) tx').1 = .error .invalidChainId :=
  ⟨signs_fixedCrypto, sender_signTx_eip155_zero signs_fixedCrypto transferTx ()⟩

end GoEthereum.Types

