import Mathlib.Tactic

/-!
The message framing of whisper v5 (whisper/whisperv5/message.go).
NewSentMessage lays out a plaintext as a flags byte, the padding and the
payload, the padding's first bytes holding its size; `sign` appends a
signature of the hash of what it has then. ReceivedMessage.Validate reads
the fields back.

Every message that NewSentMessage and `sign` build is accepted with its
payload and signer, padded to a multiple of 256 bytes or to 128
(`Validate_Wrap`). But Validate slices `Raw[1:1+sz]` before it checks that
the plaintext holds `sz` bytes after the flags, so it panics on exactly the
unsigned plaintexts too short for their padding-size bytes
(`Validate_panics_iff`).
-/

namespace GoEthereum.Whisper

abbrev Bytes := List UInt8

def paddingMask : UInt8 := 3
def signatureFlag : UInt8 := 4
def signatureLength : Nat := 65
def MaxMessageLength : Nat := 0xFFFF
def padSizeLimitLower : Nat := 128
def padSizeLimitUpper : Nat := 256

/-- How a call ends without a value: an error, or a runtime panic. -/
inductive Fault where
  | error (message : String)
  | panic (message : String)
  deriving DecidableEq, Repr

/-- The hash and the signature scheme, as deterministic functions. -/
structure Primitives (PrivKey PubKey : Type) where
  Keccak256 : Bytes → Bytes
  /-- crypto.Sign of a hash with a key; `none` for its error -/
  Sign : Bytes → PrivKey → Option Bytes
  /-- crypto.SigToPub of a hash and a signature; `none` for its error -/
  SigToPub : Bytes → Bytes → Option PubKey
  /-- the public half of a private key -/
  PublicKey : PrivKey → PubKey

/-- A signature is 65 bytes and recovers, from the hash it signs, the key
that made it. -/
structure Lawful {PrivKey PubKey : Type} (E : Primitives PrivKey PubKey) : Prop where
  length_sign : ∀ {hash key signature}, E.Sign hash key = some signature →
    signature.length = signatureLength
  sigToPub_sign : ∀ {hash key signature}, E.Sign hash key = some signature →
    E.SigToPub hash signature = some (E.PublicKey key)

/-- The fields of MessageParams that NewSentMessage and Wrap read before the
encryption. -/
structure MessageParams (PrivKey : Type) where
  Src : Option PrivKey
  Payload : Bytes
  Padding : Option Bytes

/-- The fields of ReceivedMessage that Validate sets. -/
structure ReceivedMessage (PubKey : Type) where
  Raw : Bytes
  Payload : Bytes
  Padding : Bytes
  Signature : Bytes
  Src : Option PubKey

def isMessageSigned (flags : UInt8) : Bool := flags &&& signatureFlag != 0

/-- The builtin copy of `src` into `dst`: as many bytes as both have. -/
def copy (dst src : Bytes) : Bytes := src.take dst.length ++ dst.drop src.length

theorem length_copy (dst src : Bytes) : (copy dst src).length = dst.length := by
  simp only [copy, List.length_append, List.length_take, List.length_drop]
  omega

def bytesToIntLittleEndian (b : Bytes) : UInt64 :=
  (b.foldl (fun (acc : UInt64 × UInt64) x => (acc.1 + x.toUInt64 * acc.2, acc.2 * 256)) (0, 1)).1

/-! ### Sending -/

/-- appendPadding; byte `n` of what randomize writes is `rnd n`. -/
def appendPadding {PrivKey : Type} (raw : Bytes) (params : MessageParams PrivKey)
    (rnd : Nat → UInt8) : Except Fault Bytes :=
  let total := params.Payload.length + 1 + if params.Src.isSome then signatureLength else 0
  let padChunk := if total ≤ padSizeLimitLower then padSizeLimitLower else padSizeLimitUpper
  let odd := total % padChunk
  if odd > 0 then
    let padSize := padChunk - odd
    if padSize > 255 then
      .error (.panic "please fix the padding algorithm before releasing new version")
    else
      let random := (List.range (padSize - 1)).map rnd
      -- the padding given, if any, is copied over the random bytes
      let buf := UInt8.ofNat padSize :: params.Padding.elim random (copy random)
      match raw ++ buf with
      | [] => .error (.panic "index out of range")
      | flags :: rest => .ok ((flags ||| 1) :: rest)
  else .ok raw

/-- NewSentMessage: the raw bytes of the message. -/
def NewSentMessage {PrivKey : Type} (params : MessageParams PrivKey) (rnd : Nat → UInt8) :
    Except Fault Bytes := do
  let raw ← appendPadding [0] params rnd
  pure (raw ++ params.Payload)

section Primitives

variable {PrivKey PubKey : Type} (E : Primitives PrivKey PubKey)

def sign (raw : Bytes) (key : PrivKey) : Except Fault Bytes :=
  match raw with
  | [] => .error (.panic "index out of range")
  | flags :: rest =>
    -- a message that is signed already is logged and left as it is
    if isMessageSigned flags then .ok raw
    else
      match E.Sign (E.Keccak256 ((flags ||| signatureFlag) :: rest)) key with
      -- the flag is cleared again, so Raw is as it was
      | none => .error (.error "crypto.Sign")
      | some signature => .ok ((flags ||| signatureFlag) :: rest ++ signature)

/-- The part of Wrap before the encryption: the bytes it encrypts. -/
def Wrap (raw : Bytes) (options : MessageParams PrivKey) : Except Fault Bytes :=
  let signed := match options.Src with
    | some key => sign E raw key
    | none => .ok raw
  match signed with
  | .error err => .error err
  | .ok raw => if raw.length > MaxMessageLength then .error (.error "Oversized message") else .ok raw

/-! ### Receiving -/

/-- hash; `none` for the panics of its indexing, which SigToPubKey
recovers. -/
def hash (raw : Bytes) : Option Bytes :=
  match raw with
  | [] => none
  | flags :: _ =>
    if isMessageSigned flags then
      if raw.length < signatureLength then none
      else some (E.Keccak256 (raw.take (raw.length - signatureLength)))
    else some (E.Keccak256 raw)

/-- SigToPubKey, whose deferred recover turns a panic into `nil`. -/
def SigToPubKey (raw signature : Bytes) : Option PubKey :=
  (hash E raw).bind fun h => E.SigToPub h signature

end Primitives

/-- extractPadding: the size of the padding and the padding, or `none` where
it returns false. -/
def extractPadding (raw : Bytes) (end_ : Nat) : Except Fault (Option (Nat × Bytes)) :=
  match raw with
  | [] => .error (.panic "index out of range")
  | flags :: rest =>
    let sz := (flags &&& paddingMask).toNat
    if sz ≠ 0 then
      -- Raw[1:1+sz] is sliced before anything checks that the bytes are there
      if rest.length < sz then .error (.panic "slice bounds out of range")
      else
        let paddingSize := (bytesToIntLittleEndian (rest.take sz)).toNat
        if paddingSize < sz ∨ paddingSize + 1 > end_ then .ok none
        else .ok (some (paddingSize, (rest.drop sz).take (paddingSize - sz)))
    else .ok (some (0, []))

/-- The end of Validate, once it knows where the payload ends: the padding,
and the payload between it and `end_`. -/
def validatePadding {PubKey : Type} (raw : Bytes) (end_ : Nat) (signature : Bytes)
    (src : Option PubKey) : Except Fault (Option (ReceivedMessage PubKey)) :=
  match extractPadding raw end_ with
  | .error e => .error e
  | .ok none => .ok none
  | .ok (some (padSize, padding)) =>
    .ok (some ⟨raw, (raw.drop (1 + padSize)).take (end_ - (1 + padSize)), padding, signature, src⟩)

/-- Validate: the fields it sets where it returns true, `none` where it
returns false. -/
def Validate {PrivKey PubKey : Type} (E : Primitives PrivKey PubKey) (raw : Bytes) :
    Except Fault (Option (ReceivedMessage PubKey)) :=
  match raw with
  | [] => .ok none
  | flags :: _ =>
    if isMessageSigned flags then
      -- end is an int, so len - signatureLength may be below 1
      if raw.length ≤ 1 + signatureLength then .ok none
      else
        match SigToPubKey E raw (raw.drop (raw.length - signatureLength)) with
        | none => .ok none
        | some src =>
          validatePadding raw (raw.length - signatureLength)
            (raw.drop (raw.length - signatureLength)) (some src)
    else validatePadding raw raw.length [] none

/-! ### The frame NewSentMessage lays out -/

/-- The padded size of a message of `total` bytes: the next multiple of
256, or 128 for a message of at most 128 bytes. -/
def paddedSize (total : Nat) : Nat :=
  if total ≤ padSizeLimitLower then padSizeLimitLower else (total + 255) / 256 * 256

/-- The size of a message before its padding: the flags byte, the payload
and the signature to come. -/
def unpaddedSize {PrivKey : Type} (params : MessageParams PrivKey) : Nat :=
  params.Payload.length + 1 + if params.Src.isSome then signatureLength else 0

/-- A plaintext as NewSentMessage lays it out: the padding, empty or headed
by its size, and the payload. -/
structure Frame where
  padding : Bytes
  payload : Bytes
  size_padding : padding = [] ∨
    padding.head? = some (UInt8.ofNat padding.length) ∧ padding.length ≤ 255

namespace Frame

/-- The flags byte: one byte holds the padding size, if there is padding. -/
def flags (fr : Frame) : UInt8 := if fr.padding = [] then 0 else 1

def raw (fr : Frame) : Bytes := fr.flags :: fr.padding ++ fr.payload

theorem length_raw (fr : Frame) : fr.raw.length = 1 + fr.padding.length + fr.payload.length := by
  simp only [raw, List.length_cons, List.length_append]
  omega

theorem flags_unsigned (fr : Frame) : isMessageSigned fr.flags = false := by
  unfold flags
  split_ifs <;> decide

/-- The bits a padding-size byte count is read from, with or without the
signature flag. -/
theorem flags_mask (fr : Frame) {f : UInt8} (hf : f = fr.flags ∨ f = fr.flags ||| signatureFlag) :
    f &&& paddingMask = fr.flags := by
  unfold flags at hf ⊢
  split_ifs at hf ⊢ <;> rcases hf with rfl | rfl <;> decide

end Frame

theorem bytesToIntLittleEndian_single (b : UInt8) : (bytesToIntLittleEndian [b]).toNat = b.toNat := by
  simp [bytesToIntLittleEndian]

/-- Without padding bits there is no padding. -/
theorem extractPadding_zero {f : UInt8} (hf : (f &&& paddingMask).toNat = 0) (rest : Bytes)
    (end_ : Nat) : extractPadding (f :: rest) end_ = .ok (some (0, [])) := by
  simp [extractPadding, hf]

/-- One byte holds the padding size, and it is the padding's first byte. -/
theorem extractPadding_sized {f : UInt8} (hf : (f &&& paddingMask).toNat = 1) (r payload tail : Bytes)
    (hle : r.length + 1 ≤ 255) :
    extractPadding (f :: UInt8.ofNat (r.length + 1) :: r ++ payload ++ tail)
      (1 + (r.length + 1) + payload.length) = .ok (some (r.length + 1, r)) := by
  have hsize : (UInt8.ofNat (r.length + 1)).toNat = r.length + 1 := by
    rw [UInt8.toNat_ofNat']
    omega
  have hcheck : ¬ (r.length + 1 < 1 ∨ r.length + 1 + 1 > 1 + (r.length + 1) + payload.length) := by
    omega
  simp only [extractPadding, hf, List.cons_append, List.take_succ_cons, List.take_zero,
    bytesToIntLittleEndian_single, hsize, List.drop_succ_cons, List.drop_zero, List.length_cons]
  simp only [ne_eq, one_ne_zero, not_false_eq_true, if_true, Nat.add_sub_cancel, hcheck, if_false]
  rw [List.append_assoc, List.take_left' rfl, if_neg (by omega)]

/-- The padding of a frame is read back from behind any flags byte with the
frame's padding bits, whatever follows the payload. -/
theorem extractPadding_frame (fr : Frame) {f : UInt8} (hf : f &&& paddingMask = fr.flags)
    (tail : Bytes) :
    extractPadding (f :: fr.padding ++ fr.payload ++ tail) (1 + fr.padding.length + fr.payload.length) =
      .ok (some (fr.padding.length, fr.padding.drop 1)) := by
  rcases fr.size_padding with hnil | ⟨hhead, hle⟩
  · have hflags : fr.flags = 0 := if_pos hnil
    rw [List.cons_append, List.cons_append, extractPadding_zero (by rw [hf, hflags]; rfl), hnil]
    rfl
  · obtain ⟨r, hpad⟩ := List.head?_eq_some_iff.mp hhead
    have hlen : fr.padding.length = r.length + 1 := by
      rw [hpad]
      rfl
    rw [hlen] at hpad hle
    have hflags : fr.flags = 1 := if_neg (by rw [hpad]; exact List.cons_ne_nil _ _)
    rw [hlen, hpad, extractPadding_sized (by rw [hf, hflags]; rfl) r fr.payload tail hle]
    rfl

/-- Validate cuts the payload of a frame off whatever follows it. -/
theorem validatePadding_frame {PubKey : Type} (fr : Frame) {f : UInt8}
    (hf : f &&& paddingMask = fr.flags) (tail signature : Bytes) (src : Option PubKey) :
    validatePadding (f :: fr.padding ++ fr.payload ++ tail) (1 + fr.padding.length + fr.payload.length)
        signature src =
      .ok (some ⟨f :: fr.padding ++ fr.payload ++ tail, fr.payload, fr.padding.drop 1, signature, src⟩) := by
  rw [validatePadding, extractPadding_frame fr hf tail]
  have hpayload : ((f :: fr.padding ++ fr.payload ++ tail).drop (1 + fr.padding.length)).take
      (1 + fr.padding.length + fr.payload.length - (1 + fr.padding.length)) = fr.payload := by
    rw [Nat.add_sub_cancel_left, ← List.drop_drop, List.cons_append, List.cons_append, List.drop_one,
      List.tail_cons, List.append_assoc, List.drop_left, List.take_left]
  dsimp only
  rw [hpayload]

/-- NewSentMessage lays out a frame of the payload, padded, with the
signature to come, to the padded size. -/
theorem NewSentMessage_frame {PrivKey : Type} (params : MessageParams PrivKey) (rnd : Nat → UInt8) :
    ∃ fr : Frame, fr.payload = params.Payload ∧ NewSentMessage params rnd = .ok fr.raw ∧
      fr.raw.length + (if params.Src.isSome then signatureLength else 0) =
        paddedSize (unpaddedSize params) := by
  obtain ⟨total, htotal⟩ : ∃ total, unpaddedSize params = total := ⟨_, rfl⟩
  have hpos : 1 ≤ total := by
    rw [← htotal, unpaddedSize]
    omega
  have htotal' : params.Payload.length + 1 + (if params.Src.isSome then signatureLength else 0) = total :=
    htotal
  simp only [NewSentMessage, appendPadding, htotal']
  rw [htotal]
  obtain ⟨padChunk, hchunk⟩ :
      ∃ c, (if total ≤ padSizeLimitLower then padSizeLimitLower else padSizeLimitUpper) = c := ⟨_, rfl⟩
  have hchunk_cases : (total ≤ 128 ∧ padChunk = 128) ∨ (128 < total ∧ padChunk = 256) := by
    rw [← hchunk, padSizeLimitLower, padSizeLimitUpper]
    split_ifs with h <;> omega
  rw [hchunk]
  have hchunk_le : 128 ≤ padChunk ∧ padChunk ≤ 256 := by omega
  -- the padded size is the next multiple of the chunk that appendPadding picks
  have hpadded : paddedSize total = total + (padChunk - total % padChunk) % padChunk := by
    rw [paddedSize, padSizeLimitLower]
    rcases hchunk_cases with ⟨h, rfl⟩ | ⟨h, rfl⟩
    · rw [if_pos h]
      omega
    · rw [if_neg (by omega)]
      omega
  by_cases hodd : total % padChunk > 0
  · have hlt := Nat.mod_lt total (show padChunk > 0 by omega)
    rw [if_pos hodd, if_neg (by omega)]
    have htail : (params.Padding.elim ((List.range (padChunk - total % padChunk - 1)).map rnd)
        (copy ((List.range (padChunk - total % padChunk - 1)).map rnd))).length =
        padChunk - total % padChunk - 1 := by
      cases params.Padding <;> simp [length_copy]
    generalize params.Padding.elim _ _ = tail at htail ⊢
    have hsize : (UInt8.ofNat (padChunk - total % padChunk)).toNat = padChunk - total % padChunk := by
      rw [UInt8.toNat_ofNat']
      rcases hchunk_cases with ⟨-, rfl⟩ | ⟨-, rfl⟩ <;> omega
    refine ⟨⟨UInt8.ofNat (padChunk - total % padChunk) :: tail, params.Payload, Or.inr ⟨?_, ?_⟩⟩,
      rfl, ?_, ?_⟩
    · rw [List.head?_cons, List.length_cons, htail,
        Nat.sub_add_cancel (show 1 ≤ padChunk - total % padChunk by omega)]
    · rw [List.length_cons, htail]
      omega
    · simp [Frame.raw, Frame.flags]
    · rw [Frame.length_raw, hpadded]
      simp only [List.length_cons, htail]
      rcases hchunk_cases with ⟨-, rfl⟩ | ⟨-, rfl⟩ <;> omega
  · rw [if_neg hodd]
    refine ⟨⟨[], params.Payload, Or.inl rfl⟩, rfl, ?_, ?_⟩
    · simp [Frame.raw, Frame.flags]
    · rw [Frame.length_raw, hpadded]
      simp only [List.length_nil]
      rcases hchunk_cases with ⟨-, rfl⟩ | ⟨-, rfl⟩ <;> omega

section Frames

variable {PrivKey PubKey : Type} (E : Primitives PrivKey PubKey)

theorem Frame.raw_cons (fr : Frame) : fr.raw = fr.flags :: (fr.padding ++ fr.payload) :=
  List.cons_append

/-- An unsigned frame is accepted with its payload and padding. -/
theorem Validate_raw (fr : Frame) :
    Validate E fr.raw = .ok (some ⟨fr.raw, fr.payload, fr.padding.drop 1, [], none⟩) := by
  have h := validatePadding_frame fr (fr.flags_mask (Or.inl rfl)) [] [] (none : Option PubKey)
  rw [List.append_nil, ← fr.length_raw] at h
  rw [fr.raw_cons, Validate]
  simp only [fr.flags_unsigned, Bool.false_eq_true, if_false]
  rw [← fr.raw_cons]
  exact h

theorem Frame.flags_signed (fr : Frame) : isMessageSigned (fr.flags ||| signatureFlag) = true := by
  unfold Frame.flags
  split_ifs <;> decide

/-- Signing a frame sets the flag and appends the signature of the hash of
the frame with the flag set. -/
theorem sign_raw {fr : Frame} {key : PrivKey} {raw : Bytes} (h : sign E fr.raw key = .ok raw) :
    ∃ signature,
      E.Sign (E.Keccak256 ((fr.flags ||| signatureFlag) :: (fr.padding ++ fr.payload))) key =
        some signature ∧
      raw = (fr.flags ||| signatureFlag) :: fr.padding ++ fr.payload ++ signature := by
  rw [fr.raw_cons, sign] at h
  simp only [fr.flags_unsigned, Bool.false_eq_true, if_false] at h
  split at h
  · cases h
  · rename_i signature hsig
    cases h
    exact ⟨signature, hsig, by simp⟩

/-- A signed frame whose signature recovers a key is accepted with its
payload, its padding, its signature and that key. -/
theorem Validate_signed (fr : Frame) {signature : Bytes} {src : PubKey}
    (hlen : signature.length = signatureLength) (hraw : 2 ≤ fr.raw.length)
    (hsrc : E.SigToPub (E.Keccak256 ((fr.flags ||| signatureFlag) :: (fr.padding ++ fr.payload)))
      signature = some src) :
    Validate E ((fr.flags ||| signatureFlag) :: fr.padding ++ fr.payload ++ signature) =
      .ok (some ⟨(fr.flags ||| signatureFlag) :: fr.padding ++ fr.payload ++ signature, fr.payload,
        fr.padding.drop 1, signature, some src⟩) := by
  set body := (fr.flags ||| signatureFlag) :: fr.padding ++ fr.payload with hbody
  have hbody_len : body.length = 1 + fr.padding.length + fr.payload.length := by
    simp only [hbody, List.length_cons, List.length_append]
    omega
  have hend : (body ++ signature).length - signatureLength = body.length := by
    rw [List.length_append, hlen, Nat.add_sub_cancel]
  -- the signature is cut off at `end`, and the hash is of what comes before it
  have hpub : SigToPubKey E (body ++ signature) ((body ++ signature).drop body.length) = some src := by
    rw [List.drop_left, SigToPubKey, hbody, List.cons_append, List.cons_append, hash]
    simp only [fr.flags_signed, if_true]
    rw [← List.cons_append, ← List.cons_append, ← hbody, hend, List.length_append, hlen,
      if_neg (by omega), List.take_left, Option.bind_some, hbody, List.cons_append]
    exact hsrc
  have h := validatePadding_frame fr (fr.flags_mask (Or.inr rfl)) signature signature (some src)
  rw [← hbody_len] at h
  rw [Frame.length_raw] at hraw
  rw [hbody, List.cons_append, List.cons_append, Validate]
  simp only [fr.flags_signed, if_true]
  rw [← List.cons_append, ← List.cons_append, ← hbody, hend, if_neg (by simp only [List.length_append]; omega),
    List.drop_left]
  rw [List.drop_left] at hpub
  rw [hpub]
  exact h

theorem le_paddedSize (total : Nat) : padSizeLimitLower ≤ paddedSize total := by
  unfold paddedSize padSizeLimitLower
  split_ifs <;> omega

/-- What Wrap encrypts is what it was given, signed if the message has a
source, once it fits in MaxMessageLength. -/
theorem Wrap_ok {raw wrapped : Bytes} {params : MessageParams PrivKey}
    (h : Wrap E raw params = .ok wrapped) :
    match params.Src with
    | some key => sign E raw key = .ok wrapped
    | none => wrapped = raw := by
  cases hs : params.Src with
  | none =>
    simp only [Wrap, hs] at h
    split_ifs at h
    cases h
    rfl
  | some key =>
    simp only [Wrap, hs] at h
    split at h
    · cases h
    · rename_i signed hsigned
      split_ifs at h
      cases h
      exact hsigned

/-- Every message that NewSentMessage lays out and Wrap signs is accepted,
with its payload and, when signed, its signer's key; it is padded, with its
signature, to `paddedSize`. -/
theorem Validate_Wrap (hl : Lawful E) (params : MessageParams PrivKey) (rnd : Nat → UInt8)
    {raw wrapped : Bytes} (hnew : NewSentMessage params rnd = .ok raw)
    (hwrap : Wrap E raw params = .ok wrapped) :
    ∃ m, Validate E wrapped = .ok (some m) ∧ m.Payload = params.Payload ∧
      m.Src = params.Src.map E.PublicKey ∧ wrapped.length = paddedSize (unpaddedSize params) := by
  obtain ⟨fr, hpayload, hfr, hlen⟩ := NewSentMessage_frame params rnd
  rw [hfr] at hnew
  cases hnew
  have hwrapped := Wrap_ok E hwrap
  cases hsrc : params.Src with
  | none =>
    rw [hsrc] at hwrapped hlen
    subst hwrapped
    refine ⟨_, Validate_raw E fr, hpayload, rfl, ?_⟩
    simpa using hlen
  | some key =>
    rw [hsrc] at hwrapped hlen
    -- the signature recovers the key, and the frame is long enough to be signed
    obtain ⟨signature, hsig, rfl⟩ := sign_raw E hwrapped
    have hsiglen := hl.length_sign hsig
    have hraw : 2 ≤ fr.raw.length := by
      have := le_paddedSize (unpaddedSize params)
      simp only [Option.isSome_some, if_true, signatureLength, padSizeLimitLower] at hlen this
      omega
    refine ⟨_, Validate_signed E fr hsiglen hraw (hl.sigToPub_sign hsig), hpayload, rfl, ?_⟩
    rw [← hlen, Frame.length_raw]
    simp only [List.length_append, List.length_cons, hsiglen, Option.isSome_some, if_true]
    omega

end Frames

/-! ### What Validate accepts, and where it panics -/

theorem extractPadding_eq_error {flags : UInt8} {rest : Bytes} {end_ : Nat} {e : Fault} :
    extractPadding (flags :: rest) end_ = .error e ↔
      rest.length < (flags &&& paddingMask).toNat ∧ e = .panic "slice bounds out of range" := by
  unfold extractPadding
  dsimp only
  split_ifs with hsz hlen hcheck
  · exact ⟨fun h => ⟨hlen, (Except.error.inj h).symm⟩, fun h => by rw [h.2]⟩
  · exact ⟨fun h => (by cases h), fun h => absurd h.1 hlen⟩
  · exact ⟨fun h => (by cases h), fun h => absurd h.1 hlen⟩
  · exact ⟨fun h => (by cases h), fun h => by omega⟩

theorem validatePadding_eq_error {PubKey : Type} {raw : Bytes} {end_ : Nat} {signature : Bytes}
    {src : Option PubKey} {e : Fault} :
    validatePadding raw end_ signature src = .error e ↔ extractPadding raw end_ = .error e := by
  unfold validatePadding
  split <;> simp_all

/-- The padding is no longer than its size, and the size, if any, ends
before `end_`. -/
theorem extractPadding_ok {raw : Bytes} {end_ padSize : Nat} {padding : Bytes}
    (h : extractPadding raw end_ = .ok (some (padSize, padding))) :
    padding.length ≤ padSize ∧ (padSize = 0 ∨ padSize + 1 ≤ end_) := by
  unfold extractPadding at h
  split at h
  · cases h
  · dsimp only at h
    split_ifs at h with hsz hlen hcheck
    · cases h
    · simp only [Except.ok.injEq, Option.some.injEq, Prod.mk.injEq] at h
      obtain ⟨rfl, rfl⟩ := h
      simp only [List.length_take, List.length_drop]
      omega
    · simp only [Except.ok.injEq, Option.some.injEq, Prod.mk.injEq] at h
      obtain ⟨rfl, rfl⟩ := h
      simp

theorem validatePadding_ok {PubKey : Type} {raw : Bytes} {end_ : Nat} {signature : Bytes}
    {src : Option PubKey} {m : ReceivedMessage PubKey} (hend : 1 ≤ end_)
    (h : validatePadding raw end_ signature src = .ok (some m)) :
    m.Signature = signature ∧ 1 + m.Padding.length + m.Payload.length ≤ end_ := by
  unfold validatePadding at h
  split at h
  · cases h
  · cases h
  · rename_i padSize padding hpad
    cases h
    have := extractPadding_ok hpad
    refine ⟨rfl, ?_⟩
    simp only [List.length_take, List.length_drop]
    omega

/-- What Validate accepts fits in the plaintext: the flags byte, the padding,
the payload and the signature. -/
theorem Validate_lengths {PrivKey PubKey : Type} (E : Primitives PrivKey PubKey) {raw : Bytes}
    {m : ReceivedMessage PubKey} (h : Validate E raw = .ok (some m)) :
    1 + m.Padding.length + m.Payload.length + m.Signature.length ≤ raw.length := by
  cases raw with
  | nil => cases h
  | cons flags rest =>
    simp only [Validate] at h
    split_ifs at h with hsigned hshort
    · cases h
    · -- signed: the signature is what follows `end`
      split at h
      · cases h
      · have hlen : (flags :: rest).length - signatureLength ≥ 1 := by
          simp only [List.length_cons, signatureLength] at hshort ⊢
          omega
        obtain ⟨hsig, hsum⟩ := validatePadding_ok hlen h
        rw [hsig, List.length_drop]
        omega
    · obtain ⟨hsig, hsum⟩ := validatePadding_ok (by simp) h
      rw [hsig, List.length_nil]
      omega

/-- Validate panics on exactly the unsigned plaintexts with fewer bytes after
the flags than the flags say hold the padding size. -/
theorem Validate_panics_iff {PrivKey PubKey : Type} (E : Primitives PrivKey PubKey) (raw : Bytes) :
    (∃ message, Validate E raw = .error (.panic message)) ↔
      ∃ flags rest, raw = flags :: rest ∧ isMessageSigned flags = false ∧
        rest.length < (flags &&& paddingMask).toNat := by
  cases raw with
  | nil => simp [Validate]
  | cons flags rest =>
    have hmask : (flags &&& paddingMask).toNat ≤ 3 := by
      rw [UInt8.toNat_and]
      exact Nat.and_le_right
    have hrhs : (∃ f r, flags :: rest = f :: r ∧ isMessageSigned f = false ∧
        r.length < (f &&& paddingMask).toNat) ↔
        isMessageSigned flags = false ∧ rest.length < (flags &&& paddingMask).toNat := by
      constructor
      · rintro ⟨f, r, h, hf⟩
        cases h
        exact hf
      · intro h
        exact ⟨flags, rest, rfl, h⟩
    rw [hrhs]
    cases hsigned : isMessageSigned flags
    · -- unsigned: Validate reads the padding of the whole plaintext
      simp only [Validate, hsigned, Bool.false_eq_true, if_false, validatePadding_eq_error,
        extractPadding_eq_error]
      constructor
      · rintro ⟨message, hlt, -⟩
        exact ⟨trivial, hlt⟩
      · rintro ⟨-, hlt⟩
        exact ⟨_, hlt, rfl⟩
    · -- signed: the size bytes lie within the 65 bytes of the signature at worst
      simp only [Validate, hsigned, if_true]
      refine ⟨?_, fun h => absurd h.1 (by decide)⟩
      rintro ⟨message, h⟩
      split_ifs at h with hshort
      split at h
      · cases h
      · rw [validatePadding_eq_error, extractPadding_eq_error] at h
        simp only [List.length_cons, signatureLength, not_le] at hshort
        omega

/-- Primitives whose signature carries the key in its last byte: lawful,
and enough to run the framing on. -/
def keyInSignature : Primitives UInt8 UInt8 where
  Keccak256 := id
  Sign _ key := some (List.replicate 64 0 ++ [key])
  SigToPub _ signature := signature.getLast?
  PublicKey := id

/-- The plaintext `[0x01]`, a flags byte that announces one padding-size byte
and nothing after it, makes Validate panic. -/
theorem Validate_panics_flags_only :
    ∃ message, Validate keyInSignature [0x01] = .error (.panic message) :=
  (Validate_panics_iff keyInSignature [0x01]).mpr ⟨0x01, [], rfl, by decide, by decide⟩

end GoEthereum.Whisper
