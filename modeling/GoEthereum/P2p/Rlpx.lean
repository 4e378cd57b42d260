import GoEthereum.Data.KeyStream
import GoEthereum.Data.StateM
import GoEthereum.P2p.Peer
import GoEthereum.Rlp.Canonical
import GoEthereum.Rlp.RoundTrip
import Mathlib

/-!
The frame layer of RLPx in `p2p/rlpx.go`: `rlpxFrameRW.WriteMsg` and
`rlpxFrameRW.ReadMsg`, over a connection given as the bytes still to come.
A frame is a 16-byte header and its MAC, then the RLP of the code, the
payload and zeros to a multiple of 16, and its MAC, under one AES-CTR stream.
The two ends are in step when the reader's `dec` and ingress MAC stand where
the writer's `enc` and egress MAC do (`InStep`).

A message whose code and payload fit in `2 ^ 24 - 1` bytes is read back, and
the ends are in step again, frame after frame (`readMsgs_writeMsgs`).
`WriteMsg` adds the code's length to `Msg.Size` in 32 bits, so a message of
`2 ^ 32` bytes or more can go out with a wrong size in its header, and then
no `ReadMsg` gives it back (`writeMsg_size_wraps`).
-/

namespace GoEthereum.P2p

open GoEthereum.StateM (except_ok_bind except_pure except_bind_eq_ok)

/-- The keys both ends derive alike from the handshake (`secrets.AES` and
`secrets.MAC`), as the primitives the frame layer calls. -/
structure FrameKeys where
  /-- the AES-CTR key stream of `secrets.AES` from the all-zero IV, byte by byte -/
  keyStream : Nat → UInt8
  /-- `macCipher.Encrypt`: the AES block of `secrets.MAC` over the first 16
  bytes of its input -/
  macEncrypt : List UInt8 → List UInt8
  /-- `Sum(nil)` of a Keccak-256 hash to which these bytes were written -/
  keccak : List UInt8 → List UInt8

/-- `rlpxFrameRW` without its connection: how many key stream bytes `enc` and
`dec` have used, and the bytes written to the egress and ingress MAC hashes,
those of the handshake included. -/
structure RlpxFrameRW where
  enc : Nat
  dec : Nat
  egressMAC : List UInt8
  ingressMAC : List UInt8
  deriving DecidableEq, Repr

/-- `newRLPXFrameRW`: both streams start from the all-zero IV, and the MAC
hashes are those of the handshake's `secrets`. -/
def newRLPXFrameRW (egressMAC ingressMAC : List UInt8) : RlpxFrameRW :=
  ⟨0, 0, egressMAC, ingressMAC⟩

/-- The errors of the frame layer. -/
inductive FrameError where
  /-- `errors.New(message)` -/
  | errorsNew (message : String)
  /-- `io.EOF`: the connection ends before a read -/
  | eof
  /-- `io.ErrUnexpectedEOF`: it ends inside one -/
  | unexpectedEOF
  /-- an error of `rlp.Decode` -/
  | rlp (e : Rlp.Error)
  deriving DecidableEq, Repr

def maxUint24 : UInt32 := ~~~(0 : UInt32) >>> 8

def zeroHeader : List UInt8 := [0xC2, 0x80, 0x80]

def putInt24 (v : UInt32) : List UInt8 :=
  [(v >>> 16).toUInt8, (v >>> 8).toUInt8, v.toUInt8]

def readInt24 (b : List UInt8) : UInt32 :=
  (b.getD 2 0).toUInt32 ||| (b.getD 1 0).toUInt32 <<< 8 ||| (b.getD 0 0).toUInt32 <<< 16

/-- `updateMAC`: the hash after it absorbs the seed XORed with the encryption
of its sum, and the first 16 bytes of its new sum. -/
def updateMAC (K : FrameKeys) (mac seed : List UInt8) : List UInt8 × List UInt8 :=
  let aesbuf := List.zipWith (fun a s => a ^^^ s) (K.macEncrypt (K.keccak mac)) seed
  let mac := mac ++ aesbuf
  (mac, (K.keccak mac).take 16)

/-- `io.ReadFull(rw.conn, buf)` for a buffer of `n` bytes: the bytes read and
those still to come. -/
def readFull (n : Nat) (conn : List UInt8) : Except FrameError (List UInt8 × List UInt8) :=
  if n ≤ conn.length then .ok (conn.take n, conn.drop n)
  else if conn = [] then .error .eof
  else .error .unexpectedEOF

/-- `rlp.EncodeToBytes(msg.Code)`, the `ptype` that opens a frame. -/
def ptype (code : UInt64) : List UInt8 :=
  (Rlp.writeUint code.toNat Rlp.Encbuf.reset).toBytes

/-- `Msg.Size` as `Send` sets it: `uint32(size)` of the payload's length. -/
def Msg.Size (msg : Msg) : UInt32 :=
  UInt32.ofNat msg.Payload.length

/-- `zero16[:16-padding]`: the zeros that fill a frame of `fsize` bytes up to
a multiple of 16. -/
def framePadding (fsize : UInt32) : List UInt8 :=
  if fsize % 16 > 0 then List.replicate (16 - (fsize % 16).toNat) 0 else []

/-- `rsize` of `ReadMsg`: the frame size rounded up to a multiple of 16. -/
def roundedSize (fsize : UInt32) : UInt32 :=
  if fsize % 16 > 0 then fsize + (16 - fsize % 16) else fsize

/-- `rlpxFrameRW.WriteMsg`: the writer's end afterwards and the bytes written
to the connection. -/
def RlpxFrameRW.WriteMsg (K : FrameKeys) (rw : RlpxFrameRW) (msg : Msg) :
    Except FrameError (RlpxFrameRW × List UInt8) :=
  let fsize := UInt32.ofNat (ptype msg.Code).length + msg.Size
  if fsize > maxUint24 then .error (.errorsNew "message size overflows uint24")
  else
    let head := KeyStream.xor K.keyStream rw.enc (putInt24 fsize ++ zeroHeader ++ List.replicate 10 0)
    let (egressMAC, headMAC) := updateMAC K rw.egressMAC head
    -- `tee` encrypts the frame and writes it to the connection and the egress MAC
    let frame := KeyStream.xor K.keyStream (rw.enc + 16)
      (ptype msg.Code ++ msg.Payload ++ framePadding fsize)
    let egressMAC := egressMAC ++ frame
    let (egressMAC, mac) := updateMAC K egressMAC (K.keccak egressMAC)
    .ok ({ rw with enc := rw.enc + 16 + frame.length, egressMAC := egressMAC },
      head ++ headMAC ++ frame ++ mac)

/-- `rlpxFrameRW.ReadMsg`: the reader's end afterwards, the message and the
bytes left on the connection. `msg.Size` is the length of what is left of
`content` after the code, which `Msg.Size` computes from the payload. -/
def RlpxFrameRW.ReadMsg (K : FrameKeys) (rw : RlpxFrameRW) (conn : List UInt8) :
    Except FrameError (RlpxFrameRW × Msg × List UInt8) := do
  let (headbuf, conn) ← readFull 32 conn
  let (ingressMAC, shouldMAC) := updateMAC K rw.ingressMAC (headbuf.take 16)
  if shouldMAC ≠ headbuf.drop 16 then throw (.errorsNew "bad header MAC")
  let fsize := readInt24 (KeyStream.xor K.keyStream rw.dec (headbuf.take 16))
  let (framebuf, conn) ← readFull (roundedSize fsize).toNat conn
  let ingressMAC := ingressMAC ++ framebuf
  let fmacseed := K.keccak ingressMAC
  let (macbuf, conn) ← readFull 16 conn
  let (ingressMAC, shouldMAC) := updateMAC K ingressMAC fmacseed
  if shouldMAC ≠ macbuf then throw (.errorsNew "bad frame MAC")
  let content := (KeyStream.xor K.keyStream (rw.dec + 16) framebuf).take fsize.toNat
  -- `rlp.Decode(content, &msg.Code)` on a `bytes.Reader`, which limits the stream
  match Rlp.Stream.uint 64 (Rlp.Stream.newStream content 0) with
  | .error e _ => throw (.rlp e)
  | .ok code s =>
    pure ({ rw with dec := rw.dec + 16 + framebuf.length, ingressMAC := ingressMAC },
      ⟨code.toUInt64, s.r⟩, conn)

/-- Writing `msgs` one after the other: the writer's end afterwards and the
bytes on the connection. -/
def RlpxFrameRW.writeMsgs (K : FrameKeys) :
    RlpxFrameRW → List Msg → Except FrameError (RlpxFrameRW × List UInt8)
  | rw, [] => .ok (rw, [])
  | rw, msg :: msgs => do
    let (rw, frame) ← rw.WriteMsg K msg
    let (rw, out) ← rw.writeMsgs K msgs
    pure (rw, frame ++ out)

/-- `n` successive calls of `ReadMsg`. -/
def RlpxFrameRW.readMsgs (K : FrameKeys) :
    RlpxFrameRW → Nat → List UInt8 → Except FrameError (RlpxFrameRW × List Msg × List UInt8)
  | rw, 0, conn => .ok (rw, [], conn)
  | rw, n + 1, conn => do
    let (rw, msg, conn) ← rw.ReadMsg K conn
    let (rw, msgs, conn) ← rw.readMsgs K n conn
    pure (rw, msg :: msgs, conn)

/-- The reader's end stands where the writer's does: its `dec` has used as
much of the key stream as the writer's `enc`, and its ingress MAC has absorbed
what the writer's egress MAC has. -/
structure InStep (w r : RlpxFrameRW) : Prop where
  stream : w.enc = r.dec
  mac : w.egressMAC = r.ingressMAC

/-! ### Sizes in 32 bits -/

theorem toNat_maxUint24 : maxUint24.toNat = 2 ^ 24 - 1 := by decide

/-- The three bytes occupy disjoint bits, so their `|` is their sum. -/
theorem toNat_readInt24 (b : List UInt8) :
    (readInt24 b).toNat =
      (b.getD 0 0).toNat * 65536 + (b.getD 1 0).toNat * 256 + (b.getD 2 0).toNat := by
  have h0 := (b.getD 0 0).toNat_lt
  have h1 := (b.getD 1 0).toNat_lt
  have h2 := (b.getD 2 0).toNat_lt
  have hlo : (b.getD 1 0).toNat <<< 8 ||| (b.getD 2 0).toNat =
      (b.getD 1 0).toNat <<< 8 + (b.getD 2 0).toNat :=
    (Nat.shiftLeft_add_eq_or_of_lt (by omega) _).symm
  have hhi : (b.getD 0 0).toNat <<< 16 ||| ((b.getD 1 0).toNat <<< 8 + (b.getD 2 0).toNat) =
      (b.getD 0 0).toNat <<< 16 + ((b.getD 1 0).toNat <<< 8 + (b.getD 2 0).toNat) :=
    (Nat.shiftLeft_add_eq_or_of_lt (by rw [Nat.shiftLeft_eq]; omega) _).symm
  simp only [readInt24, UInt32.toNat_or, UInt32.toNat_shiftLeft, UInt8.toNat_toUInt32,
    UInt32.reduceToNat, Nat.reduceMod]
  rw [Nat.mod_eq_of_lt (by rw [Nat.shiftLeft_eq]; omega),
    Nat.mod_eq_of_lt (by rw [Nat.shiftLeft_eq]; omega),
    Nat.lor_comm _ ((b.getD 1 0).toNat <<< 8), hlo, Nat.lor_comm, hhi, Nat.shiftLeft_eq,
    Nat.shiftLeft_eq]
  omega

theorem readInt24_lt (b : List UInt8) : (readInt24 b).toNat < 2 ^ 24 := by
  have h0 := (b.getD 0 0).toNat_lt
  have h1 := (b.getD 1 0).toNat_lt
  have h2 := (b.getD 2 0).toNat_lt
  rw [toNat_readInt24]
  omega

theorem readInt24_putInt24 (v : UInt32) (hv : v.toNat < 2 ^ 24) (rest : List UInt8) :
    readInt24 (putInt24 v ++ rest) = v := by
  apply UInt32.toNat_inj.mp
  rw [toNat_readInt24]
  simp [putInt24, UInt32.toNat_shiftRight]
  omega

/-- `uint32(len(ptype)) + msg.Size` is the size of the code and the payload
modulo `2 ^ 32`. -/
theorem toNat_fsize (msg : Msg) :
    (UInt32.ofNat (ptype msg.Code).length + msg.Size).toNat =
      ((ptype msg.Code).length + msg.Payload.length) % 2 ^ 32 := by
  simp [Msg.Size, UInt32.toNat_add, UInt32.toNat_ofNat', Nat.add_mod]

theorem toNat_roundedSize {fsize : UInt32} (h : fsize.toNat < 2 ^ 24) :
    (roundedSize fsize).toNat = fsize.toNat + (framePadding fsize).length := by
  have hmod : (fsize % 16).toNat = fsize.toNat % 16 := UInt32.toNat_mod _ _
  unfold roundedSize framePadding
  split_ifs with hpad
  · have hle : fsize % 16 ≤ 16 := by
      rw [UInt32.le_iff_toNat_le, hmod]
      simp only [UInt32.reduceToNat]
      omega
    rw [UInt32.toNat_add, UInt32.toNat_sub_of_le _ _ hle, hmod, List.length_replicate]
    simp only [UInt32.reduceToNat]
    omega
  · simp

/-! ### One frame -/

theorem readFull_append (bs rest : List UInt8) :
    readFull bs.length (bs ++ rest) = .ok (bs, rest) := by
  simp [readFull]

section Frame

variable {K : FrameKeys}

theorem length_updateMAC (hK : ∀ b, (K.keccak b).length = 32) (mac seed : List UInt8) :
    (updateMAC K mac seed).2.length = 16 := by
  simp [updateMAC, hK]

/-- `ReadMsg` on a well-formed frame: a header with its right MAC whose size
announces the frame, the frame with its right MAC, and content that opens
with an RLP integer. -/
theorem readMsg_of_frame {r : RlpxFrameRW} {head headMAC frame mac rest mac₁ mac₂ : List UInt8}
    {code : Nat} {s : Rlp.Stream} (hhead : head.length = 16)
    (hheadMAC : updateMAC K r.ingressMAC head = (mac₁, headMAC)) (hlen : headMAC.length = 16)
    (hframe : frame.length = (roundedSize (readInt24 (KeyStream.xor K.keyStream r.dec head))).toNat)
    (hmac : updateMAC K (mac₁ ++ frame) (K.keccak (mac₁ ++ frame)) = (mac₂, mac))
    (hmaclen : mac.length = 16)
    (hcode : Rlp.Stream.uint 64 (Rlp.Stream.newStream
      ((KeyStream.xor K.keyStream (r.dec + 16) frame).take
        (readInt24 (KeyStream.xor K.keyStream r.dec head)).toNat) 0) = .ok code s) :
    r.ReadMsg K (head ++ headMAC ++ frame ++ mac ++ rest) =
      .ok ({ r with dec := r.dec + 16 + frame.length, ingressMAC := mac₂ }, ⟨code.toUInt64, s.r⟩,
        rest) := by
  have h32 : (head ++ headMAC).length = 32 := by simp [hhead, hlen]
  have hread₁ : readFull 32 (head ++ headMAC ++ frame ++ mac ++ rest) =
      .ok (head ++ headMAC, frame ++ mac ++ rest) := by
    rw [← h32, List.append_assoc (head ++ headMAC), List.append_assoc (head ++ headMAC)]
    exact readFull_append _ _
  have hread₂ := readFull_append frame (mac ++ rest)
  rw [hframe] at hread₂
  have hread₃ := readFull_append mac rest
  rw [hmaclen] at hread₃
  unfold RlpxFrameRW.ReadMsg
  rw [hread₁]
  simp only [except_ok_bind, List.take_left' hhead,
    List.drop_left' hhead, hheadMAC, ne_eq, not_true_eq_false, if_false]
  rw [List.append_assoc frame, hread₂]
  simp only [except_ok_bind, hread₃, hmac, not_true_eq_false, if_false, hcode, except_pure]

/-- The content of a frame opens with the code, which `rlp.Decode` reads back,
leaving the payload. -/
theorem uint_ptype (code : UInt64) (payload : List UInt8) :
    ∃ s, Rlp.Stream.uint 64 (Rlp.Stream.newStream (ptype code ++ payload) 0) = .ok code.toNat s ∧
      s.r = payload := by
  obtain ⟨s, hu, hadv⟩ := Rlp.uint_writeUint code.toNat code.toNat_lt
    (Rlp.Stream.newStream (ptype code ++ payload) 0) payload
    ⟨rfl, rfl, ⟨by simp [Rlp.Stream.newStream], fun _ => by simp [Rlp.Stream.newStream, ptype]⟩⟩
  exact ⟨s, hu, by rw [hadv.1]; simp [Rlp.Stream.newStream, ptype]⟩

/-- A message whose code and payload fit in `2 ^ 24 - 1` bytes is written, read
back at the other end with its code and payload, and leaves both ends in
step. -/
theorem RlpxFrameRW.readMsg_writeMsg (hK : ∀ b, (K.keccak b).length = 32) {w r : RlpxFrameRW}
    (hstep : InStep w r) (msg : Msg)
    (hfit : (ptype msg.Code).length + msg.Payload.length < 2 ^ 24) :
    ∃ w' r' out, w.WriteMsg K msg = .ok (w', out) ∧ InStep w' r' ∧
      ∀ rest, r.ReadMsg K (out ++ rest) = .ok (r', msg, rest) := by
  obtain ⟨henc, hmac⟩ := hstep
  -- the frame size, computed in 32 bits, does not wrap
  have hfs : (UInt32.ofNat (ptype msg.Code).length + msg.Size).toNat =
      (ptype msg.Code).length + msg.Payload.length := by
    rw [toNat_fsize, Nat.mod_eq_of_lt (by omega)]
  have hle : ¬ UInt32.ofNat (ptype msg.Code).length + msg.Size > maxUint24 := by
    rw [gt_iff_lt, UInt32.lt_iff_toNat_lt, toNat_maxUint24, hfs]
    omega
  set fsize := UInt32.ofNat (ptype msg.Code).length + msg.Size with hfsize
  set hdr := putInt24 fsize ++ zeroHeader ++ List.replicate 10 0 with hhdr
  set head := KeyStream.xor K.keyStream w.enc hdr with hheaddef
  set body := ptype msg.Code ++ msg.Payload ++ framePadding fsize with hbody
  set frame := KeyStream.xor K.keyStream (w.enc + 16) body with hframedef
  rcases hu₁ : updateMAC K w.egressMAC head with ⟨mac₁, headMAC⟩
  rcases hu₂ : updateMAC K (mac₁ ++ frame) (K.keccak (mac₁ ++ frame)) with ⟨mac₂, mac⟩
  have hwrite : w.WriteMsg K msg =
      .ok ({ w with enc := w.enc + 16 + frame.length, egressMAC := mac₂ },
        head ++ headMAC ++ frame ++ mac) := by
    simp only [RlpxFrameRW.WriteMsg, ← hfsize, ← hhdr, ← hheaddef, ← hbody, ← hframedef, if_neg hle,
      hu₁, hu₂]
  -- what the reader decrypts: the header, and the size it announces
  have hsize : readInt24 (KeyStream.xor K.keyStream r.dec head) = fsize := by
    rw [← henc, KeyStream.xor_xor, hhdr, List.append_assoc, readInt24_putInt24 _ (by omega)]
  have hlen₁ : headMAC.length = 16 := by simpa [hu₁] using length_updateMAC hK w.egressMAC head
  have hlen₂ : mac.length = 16 := by
    simpa [hu₂] using length_updateMAC hK (mac₁ ++ frame) (K.keccak (mac₁ ++ frame))
  have hframe : frame.length =
      (roundedSize (readInt24 (KeyStream.xor K.keyStream r.dec head))).toNat := by
    rw [hsize, toNat_roundedSize (by omega), hfs]
    simp [frame, body, Nat.add_assoc]
  have hcontent : (KeyStream.xor K.keyStream (r.dec + 16) frame).take
      (readInt24 (KeyStream.xor K.keyStream r.dec head)).toNat = ptype msg.Code ++ msg.Payload := by
    rw [hsize, hfs, ← henc, KeyStream.xor_xor, hbody]
    exact List.take_left' (by simp)
  obtain ⟨s, hu, hs⟩ := uint_ptype msg.Code msg.Payload
  refine ⟨_, { r with dec := r.dec + 16 + frame.length, ingressMAC := mac₂ }, _, hwrite,
    ⟨by simp [henc], rfl⟩, fun rest => ?_⟩
  rw [readMsg_of_frame (by simp [head, hdr, putInt24, zeroHeader]) (by rw [← hmac]; exact hu₁) hlen₁
    hframe hu₂ hlen₂ (by rw [hcontent]; exact hu)]
  simp [hs]

/-- A message that `ReadMsg` returns fits in a frame: its code and payload are
the first `fsize` bytes of the frame, fewer than `2 ^ 24`. -/
theorem size_of_readMsg {r r' : RlpxFrameRW} {conn rest : List UInt8} {m : Msg}
    (h : r.ReadMsg K conn = .ok (r', m, rest)) :
    (ptype m.Code).length + m.Payload.length < 2 ^ 24 := by
  unfold RlpxFrameRW.ReadMsg at h
  obtain ⟨⟨headbuf, conn₁⟩, -, h⟩ := except_bind_eq_ok.mp h
  dsimp only at h
  split_ifs at h with hmac₁
  · cases h
  obtain ⟨⟨framebuf, conn₂⟩, -, h⟩ := except_bind_eq_ok.mp h
  obtain ⟨⟨macbuf, conn₃⟩, -, h⟩ := except_bind_eq_ok.mp h
  dsimp only at h
  split_ifs at h with hmac₂
  · cases h
  split at h
  · cases h
  · rename_i code s hu
    simp only [except_pure, Except.ok.injEq, Prod.mk.injEq] at h
    obtain ⟨-, rfl, -⟩ := h
    -- the code read fits in 64 bits, so `ptype` of it is what was consumed
    have hlt := Rlp.uint_lt hu
    have htoNat : code.toUInt64.toNat = code := by
      simp only [Nat.toUInt64_eq, UInt64.toNat_ofNat']
      omega
    have hcode : ptype code.toUInt64 = (Rlp.writeUint code Rlp.Encbuf.reset).toBytes := by
      rw [ptype, htoNat]
    obtain ⟨hr, -⟩ := Rlp.uint_inv rfl hu
    have hsplit := congrArg List.length hr
    have hfs := readInt24_lt (KeyStream.xor K.keyStream r.dec (List.take 16 headbuf))
    simp only [Rlp.Stream.newStream, List.length_append, List.length_take] at hsplit
    simp only [hcode]
    omega

/-- `WriteMsg` accepts exactly the messages whose code and payload, counted
modulo `2 ^ 32`, fit in `2 ^ 24 - 1` bytes. -/
theorem writeMsg_ok_iff (w : RlpxFrameRW) (msg : Msg) :
    (∃ w' out, w.WriteMsg K msg = .ok (w', out)) ↔
      ((ptype msg.Code).length + msg.Payload.length) % 2 ^ 32 < 2 ^ 24 := by
  have hgt : UInt32.ofNat (ptype msg.Code).length + msg.Size > maxUint24 ↔
      2 ^ 24 ≤ ((ptype msg.Code).length + msg.Payload.length) % 2 ^ 32 := by
    rw [gt_iff_lt, UInt32.lt_iff_toNat_lt, toNat_maxUint24, toNat_fsize]
    omega
  by_cases h : UInt32.ofNat (ptype msg.Code).length + msg.Size > maxUint24
  · simp only [RlpxFrameRW.WriteMsg, if_pos h, reduceCtorEq, exists_false, false_iff, not_lt]
    exact hgt.mp h
  · simp only [RlpxFrameRW.WriteMsg, if_neg h]
    exact iff_of_true ⟨_, _, rfl⟩ (Nat.lt_of_not_le (mt hgt.mpr h))

/-- A message of `2 ^ 24` bytes or more whose size wraps around below `2 ^ 24`
is accepted, and no `ReadMsg` returns it. -/
theorem writeMsg_size_wraps (w r : RlpxFrameRW) (msg : Msg)
    (hbig : 2 ^ 24 ≤ (ptype msg.Code).length + msg.Payload.length)
    (hwrap : ((ptype msg.Code).length + msg.Payload.length) % 2 ^ 32 < 2 ^ 24) :
    (∃ w' out, w.WriteMsg K msg = .ok (w', out)) ∧
      ∀ conn r' m rest, r.ReadMsg K conn = .ok (r', m, rest) → m ≠ msg := by
  refine ⟨(writeMsg_ok_iff w msg).mpr hwrap, ?_⟩
  rintro conn r' m rest h rfl
  have := size_of_readMsg h
  omega

/-- Over a connection, frame after frame: a sequence of messages that each fit
in a frame is read back in order, and both ends stay in step. -/
theorem RlpxFrameRW.readMsgs_writeMsgs (hK : ∀ b, (K.keccak b).length = 32) (msgs : List Msg)
    {w r : RlpxFrameRW} (hstep : InStep w r)
    (hfit : ∀ msg ∈ msgs, (ptype msg.Code).length + msg.Payload.length < 2 ^ 24) :
    ∃ w' r' out, w.writeMsgs K msgs = .ok (w', out) ∧ InStep w' r' ∧
      ∀ rest, r.readMsgs K msgs.length (out ++ rest) = .ok (r', msgs, rest) := by
  induction msgs generalizing w r with
  | nil => exact ⟨w, r, [], rfl, hstep, fun _ => rfl⟩
  | cons msg msgs ih =>
    -- the first frame, then the rest from the ends it leaves in step
    obtain ⟨w₁, r₁, frame, hw, hstep₁, hr⟩ :=
      RlpxFrameRW.readMsg_writeMsg hK hstep msg (hfit msg List.mem_cons_self)
    obtain ⟨w₂, r₂, out, hws, hstep₂, hrs⟩ :=
      ih hstep₁ (fun m hm => hfit m (List.mem_cons_of_mem _ hm))
    refine ⟨w₂, r₂, frame ++ out, ?_, hstep₂, fun rest => ?_⟩
    · simp [RlpxFrameRW.writeMsgs, hw, hws]
    · simp [RlpxFrameRW.readMsgs, hr, hrs]

end Frame

/-- Keys whose primitives return constant bytes, for closed instances. -/
def constantKeys : FrameKeys :=
  ⟨fun _ => 0, fun _ => List.replicate 16 0, fun _ => List.replicate 32 0⟩

/-- Code 0, whose `ptype` is the one byte `0x80`, with `2 ^ 32 - 1` payload
bytes: the frame size wraps around to 0. -/
def wrappedMsg : Msg :=
  ⟨0, List.replicate (2 ^ 32 - 1) 0⟩

theorem writeMsg_size_wraps_code0 :
    2 ^ 24 ≤ (ptype wrappedMsg.Code).length + wrappedMsg.Payload.length ∧
    ((ptype wrappedMsg.Code).length + wrappedMsg.Payload.length) % 2 ^ 32 < 2 ^ 24 ∧
    (∃ w' out, (newRLPXFrameRW [] []).WriteMsg constantKeys wrappedMsg = .ok (w', out)) ∧
      ∀ conn r' m rest, (newRLPXFrameRW [] []).ReadMsg constantKeys conn = .ok (r', m, rest) →
        m ≠ wrappedMsg := by
  have hp : (ptype wrappedMsg.Code).length = 1 := by
    rw [show wrappedMsg.Code = 0 from rfl, ptype, Rlp.toBytes_writeUint_eq _ (by norm_num)]
    rfl
  have hl : wrappedMsg.Payload.length = 2 ^ 32 - 1 := List.length_replicate
  have hbig : 2 ^ 24 ≤ (ptype wrappedMsg.Code).length + wrappedMsg.Payload.length := by
    rw [hp, hl]
    norm_num
  have hwrap : ((ptype wrappedMsg.Code).length + wrappedMsg.Payload.length) % 2 ^ 32 < 2 ^ 24 := by
    rw [hp, hl]
    norm_num
  exact ⟨hbig, hwrap,
    writeMsg_size_wraps (newRLPXFrameRW [] []) (newRLPXFrameRW [] []) wrappedMsg hbig hwrap⟩

end GoEthereum.P2p
