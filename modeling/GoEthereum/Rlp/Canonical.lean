import GoEthereum.Rlp.StreamInv

/-!
`DecodeBytes` accepts only canonical encodings: whatever it decodes, the
encoder writes back as exactly the input. The direction opposite to
`RoundTrip`: every value the decoder returns has consumed its own encoding
`Value.rlp` (`decodeInterface_inv`), by induction on the fuel, whose step
follows `decodeListSlice` and the loop of `decodeSliceElems`. The loop stops
at the `EOL` that only `Kind` reports, at the end of a list's payload, and
`ListEnd` checks that the items filled it.
-/

namespace GoEthereum.Rlp

open GoEthereum.BigEndian GoEthereum.Rlp.Stream

theorem listEnd_ne_eol (s s' : Stream) : listEnd s ≠ .error .eol s' := by
  intro h
  unfold listEnd at h
  split at h
  · simp at h
  · split_ifs at h
    simp at h

theorem bytes_cached_ne_eol (t : Stream) (k : Kind) (n : Nat) (s' : Stream) :
    Stream.bytes { t with kind := some k, size := n, kinderr := none } ≠ .error .eol s' := by
  intro h
  unfold Stream.bytes at h
  rw [nextKind_cached _ k rfl rfl] at h
  cases k with
  | byte => simp at h
  | string =>
      dsimp only at h
      split at h
      · rename_i e t₂ hfull
        cases h
        exact readFull_ne_eol _ _ _ hfull
      · split_ifs at h
        simp at h
  | list => simp at h

/-- The loop turns the `EOL` that ends it into its result: it never reports
`EOL` itself. -/
theorem decodeSliceElems_ne_eol {α : Type} (elemdec : StreamM α) :
    ∀ (fuel : Nat) (s s' : Stream), decodeSliceElems elemdec fuel s ≠ .error .eol s'
  | 0, s, s', h => by simp [decodeSliceElems] at h
  | fuel + 1, s, s', h => by
      simp only [decodeSliceElems] at h
      split at h
      · simp at h
      · rename_i e s₁ hne hdec
        cases h
        exact hne rfl
      · split at h
        · simp at h
        · rename_i v s₁ hdec _ e s₂ hrest
          have := decodeSliceElems_ne_eol elemdec fuel s₁ s₂
          cases h
          exact this hrest

/-- `decodeListSlice` on a cached list kind: `List`, the loop unless the list
is empty, and `ListEnd` at the end of the payload. -/
theorem decodeListSlice_inv {α : Type} {elemdec : StreamM α} {fuel : Nat} {t s' : Stream}
    {items : List α} (hk : t.kind = some .list) (he : t.kinderr = none)
    (h : decodeListSlice elemdec fuel t = .ok items s') :
    ∃ t₃, (if t.size = 0 then .ok [] { t with stack := ⟨0, t.size⟩ :: t.stack, kind := none, size := 0 }
      else decodeSliceElems elemdec fuel
        { t with stack := ⟨0, t.size⟩ :: t.stack, kind := none, size := 0 }) = .ok items t₃ ∧
      ∃ tos outer, t₃.stack = tos :: outer ∧ tos.pos = tos.size ∧
        s' = { t₃ with stack := bump outer tos.size, kind := none, size := 0 } := by
  simp only [decodeListSlice, list_ok t hk he] at h
  split at h
  · cases h
  · rename_i items' t₃ helems
    split at h
    · rename_i t₄ hend
      obtain ⟨tos, outer, hst, hfull, rfl⟩ := listEnd_inv hend
      cases h
      exact ⟨t₃, helems, tos, outer, hst, hfull, rfl⟩
    · cases h

theorem decodeListSlice_cached_ne_eol {α : Type} (elemdec : StreamM α) (fuel : Nat)
    (t s' : Stream) (hk : t.kind = some .list) (he : t.kinderr = none) :
    decodeListSlice elemdec fuel t ≠ .error .eol s' := by
  intro h
  simp only [decodeListSlice, list_ok t hk he] at h
  split at h
  · rename_i e t₃ helems
    cases h
    -- an empty list has no loop, whose result is not an error
    split_ifs at helems
    exact decodeSliceElems_ne_eol elemdec fuel _ _ helems
  · split at h
    · simp at h
    · rename_i e t₄ hend
      cases h
      exact listEnd_ne_eol _ _ hend

/-- `decodeInterface` reports `EOL` only from `Kind` at the end of a list,
leaving the stream where it was. -/
theorem decodeInterface_eol_inv : ∀ (fuel : Nat) (s s' : Stream), s.kind = none →
    decodeInterface fuel s = .error .eol s' → s' = { s with kinderr := none }
  | 0, s, s', _, h => by simp [decodeInterface] at h
  | fuel + 1, s, s', hk, h => by
      simp only [decodeInterface] at h
      split at h
      · rename_i e s₁ hnext
        cases h
        exact nextKind_eol hk hnext
      · rename_i k n s₁ hnext
        obtain ⟨t, hdr, -, -, rfl⟩ := nextKind_inv hk hnext
        split_ifs at h with hlist
        · split at h
          · simp at h
          · rename_i e s₂ hslice
            cases h
            subst hlist
            exact absurd hslice (decodeListSlice_cached_ne_eol _ _ _ _ rfl rfl)
        · split at h
          · simp at h
          · rename_i e s₂ hbytes
            cases h
            exact absurd hbytes (bytes_cached_ne_eol _ _ _ _)

/-- The loop of `decodeSliceElems` with an element decoder that consumes the
encoding of what it returns, and reports `EOL` without moving: the items
returned have consumed their encodings. -/
theorem decodeSliceElems_inv {elemdec : StreamM Value}
    (hdec : ∀ s s' v, s.kind = none → elemdec s = .ok v s' →
      Consumed s s' v.rlp ∧ s'.kind = none ∧ v.fits = true)
    (heol : ∀ s s', s.kind = none → elemdec s = .error .eol s' → s' = { s with kinderr := none }) :
    ∀ (fuel : Nat) (s s' : Stream) (vs : List Value), s.kind = none →
      decodeSliceElems elemdec fuel s = .ok vs s' →
      Consumed s s' (Value.rlpList vs) ∧ s'.kind = none ∧ Value.fitsList vs = true
  | 0, s, s', vs, _, h => by simp [decodeSliceElems] at h
  | fuel + 1, s, s', vs, hk, h => by
      simp only [decodeSliceElems] at h
      split at h
      · -- `EOL`: the list is done, nothing was read
        rename_i s₁ hend
        rw [heol s s₁ hk hend] at h
        cases h
        exact ⟨Consumed.nil rfl rfl rfl rfl, hk, rfl⟩
      · cases h
      · split at h
        · rename_i v s₁ hv _ vs' s₂ hrest
          obtain ⟨hc₁, hk₁, hfit₁⟩ := hdec s s₁ v hk hv
          obtain ⟨hc₂, hk₂, hfit₂⟩ := decodeSliceElems_inv hdec heol fuel s₁ s₂ vs' hk₁ hrest
          cases h
          exact ⟨by rw [rlpList_cons]; exact hc₁.trans hc₂, hk₂, by simp [hfit₁, hfit₂]⟩
        · cases h

/-- What `decodeInterface` returns from a fresh stream is a value whose
encoding it has consumed. -/
theorem decodeInterface_inv : ∀ (fuel : Nat) (s s' : Stream) (v : Value), s.kind = none →
    decodeInterface fuel s = .ok v s' → Consumed s s' v.rlp ∧ s'.kind = none ∧ v.fits = true
  | 0, s, s', v, _, h => by simp [decodeInterface] at h
  | fuel + 1, s, s', v, hk, h => by
      simp only [decodeInterface] at h
      split at h
      · cases h
      · rename_i k n s₁ hnext
        obtain ⟨t, hdr, hcons, hcanon, rfl⟩ := nextKind_inv hk hnext
        split_ifs at h with hlist
        · -- a list: its items fill the payload the header announced
          subst hlist
          obtain ⟨rfl, hn⟩ := hcanon
          split at h
          · rename_i items s₄ hslice
            cases h
            obtain ⟨t₃, helems, tos, outer, hst, hend, rfl⟩ := decodeListSlice_inv rfl rfl hslice
            obtain ⟨hc₃, hk₃, hfit₃⟩ : Consumed
                { t with stack := ⟨0, n⟩ :: t.stack, kind := none, size := 0, kinderr := none }
                t₃ (Value.rlpList items) ∧ t₃.kind = none ∧ Value.fitsList items = true := by
              split_ifs at helems with hn0
              · cases helems
                exact ⟨Consumed.nil rfl rfl rfl rfl, rfl, rfl⟩
              · exact decodeSliceElems_inv (fun s s' v hk h => decodeInterface_inv fuel s s' v hk h)
                  (decodeInterface_eol_inv fuel) fuel _ t₃ items rfl helems
            -- `ListEnd` found the innermost list full: the items took `n` bytes
            have hlen : (Value.rlpList items).length = n := by
              have hst₃ := hc₃.2.2.2.2
              rw [hst] at hst₃
              simp only [bump, List.cons.injEq] at hst₃
              obtain ⟨rfl, -⟩ := hst₃
              simpa using hend
            have hst₃ : outer = t.stack ∧ tos.size = n := by
              have := hc₃.2.2.2.2
              rw [hst] at this
              simp only [bump, List.cons.injEq] at this
              obtain ⟨rfl, rfl⟩ := this
              exact ⟨rfl, rfl⟩
            obtain ⟨rfl, rfl⟩ := hst₃
            refine ⟨?_, rfl, ?_⟩
            · rw [rlp_list, hlen]
              refine hcons.trans ⟨hc₃.1, hc₃.2.1, hc₃.2.2.1, hc₃.2.2.2.1, ?_⟩
              rw [hlen]
            · simp only [fits_list, hlen, hfit₃, Bool.and_true, decide_eq_true_eq]
              exact hn
          · cases h
        · -- a string, or a byte
          split at h
          · rename_i b s₂ hbytes
            cases h
            obtain ⟨hc, hk₂, hlen⟩ := bytes_cached_inv hcons hcanon hbytes
            exact ⟨by rw [rlp_bytes]; exact hc, hk₂, by simpa using hlen⟩
          · cases h

/-- The encoding `writeUint` gives an integer, as the bytes `toBytes` returns. -/
theorem toBytes_writeUint (i : Nat) (out : List UInt8)
    (h : writeUint i Encbuf.reset = { Encbuf.reset with str := Encbuf.reset.str ++ out }) :
    (writeUint i Encbuf.reset).toBytes = out := by
  rw [h]
  exact toBytes_of_extends (Extends.str_append _ _)

/-- What `Stream.uint` returns is an integer whose encoding it has consumed:
a zero byte, a byte below `0x80` behind a header and a leading zero byte are
all rejected. -/
theorem uint_inv {s s' : Stream} {m : Nat} (hk : s.kind = none) (h : uint 64 s = .ok m s') :
    Consumed s s' (writeUint m Encbuf.reset).toBytes := by
  unfold uint at h
  split at h
  · cases h
  · -- a single byte: not zero, and below `0x80`
    rename_i n s₁ hnext
    obtain ⟨t, hdr, hcons, ⟨rfl, hlt, -⟩, rfl⟩ := nextKind_inv hk hnext
    split_ifs at h with hz
    cases h
    have hlt' : t.byteval.toNat < 128 := UInt8.lt_iff_toNat_lt.mp hlt
    have hz' : t.byteval.toNat ≠ 0 := fun h0 => hz (UInt8.toNat_inj.mp h0)
    rw [toBytes_writeUint _ [t.byteval] (by simp [writeUint, hz', hlt', Nat.toUInt8])]
    exact hcons
  · -- a string of at most eight bytes
    rename_i n s₁ hnext
    obtain ⟨t, hdr, hcons, ⟨rfl, hn⟩, rfl⟩ := nextKind_inv hk hnext
    split_ifs at h with hover
    split at h
    · cases h
    · cases h
    · rename_i v s₂ hu
      split_ifs at h with hsmall
      cases h
      rcases Nat.eq_zero_or_pos n with rfl | hpos
      · -- no bytes at all: the integer zero, written `0x80`
        simp only [readUint, EStateM.Result.ok.injEq] at hu
        obtain ⟨rfl, rfl⟩ := hu
        rw [toBytes_writeUint 0 [0x80] (by simp [writeUint])]
        exact hcons
      · -- the minimal bytes of an integer of `0x80` or more
        obtain ⟨bs, hc, -, hw, rfl⟩ := readUint_inv hpos hu
        have hv : ¬ m < 128 := fun hv => hsmall ⟨hpos, hv⟩
        have hv64 : m < 2 ^ 64 := lt_of_width_le hw (by omega)
        have hput : putint m = BigEndian.bytes n m := by rw [putint_eq m hv64, hw]
        have henc : writeUint m Encbuf.reset =
            { Encbuf.reset with str := Encbuf.reset.str ++ (lengthPrefix 0x80 n ++ BigEndian.bytes n m) } := by
          have hv0 : m ≠ 0 := by omega
          simp [writeUint, hv0, hv, hput, lengthPrefix, show n < 56 by omega, Encbuf.reset]
        rw [toBytes_writeUint _ _ henc]
        exact hcons.trans hc
  · cases h

/-- What `Stream.uint 64` returns fits in 64 bits: a byte, or at most eight
bytes without a leading zero. -/
theorem uint_lt {s s' : Stream} {m : Nat} (h : uint 64 s = .ok m s') : m < 2 ^ 64 := by
  unfold uint at h
  split at h
  · cases h
  · -- a single byte
    split_ifs at h
    cases h
    exact lt_trans (UInt8.toNat_lt _) (by norm_num)
  · -- a string of at most eight bytes
    rename_i n s₁ hnext
    split_ifs at h with hover
    split at h
    · cases h
    · cases h
    · rename_i v s₂ hu
      split_ifs at h
      cases h
      rcases Nat.eq_zero_or_pos n with rfl | hpos
      · simp only [readUint, EStateM.Result.ok.injEq] at hu
        omega
      · obtain ⟨-, -, -, hw, -⟩ := readUint_inv hpos hu
        exact lt_of_width_le hw (by omega)
  · cases h

/-- What `decodeBigInt` returns is an integer whose encoding `writeBigInt`
writes is what it consumed: leading zero bytes are rejected. -/
theorem decodeBigInt_inv {s s' : Stream} {m : Nat} (hk : s.kind = none)
    (h : decodeBigInt s = .ok m s') :
    ∃ w, writeBigInt m Encbuf.reset = .ok w ∧ Consumed s s' w.toBytes := by
  unfold decodeBigInt at h
  split at h
  · cases h
  · rename_i b s₁ hbytes
    obtain ⟨hc, -, hlen⟩ := bytes_inv hk hbytes
    split_ifs at h with hzero
    cases h
    cases b with
    | nil =>
        -- no bytes: zero, written `0x80`
        refine ⟨{ Encbuf.reset with str := Encbuf.reset.str ++ [0x80] }, by simp [writeBigInt], ?_⟩
        rw [toBytes_of_extends (Extends.str_append _ _)]
        exact hc
    | cons b₀ tail =>
        -- a nonzero first byte: the minimal encoding of a positive value
        have hb₀ : b₀ ≠ 0 := fun h0 => hzero ⟨by simp [h0], by simp⟩
        have hpos : value (b₀ :: tail) ≠ 0 := by
          have h₁ : 0 < b₀.toNat := Nat.pos_of_ne_zero fun h0 => hb₀ (UInt8.toNat_inj.mp h0)
          have h₂ : 0 < 256 ^ tail.length := Nat.pow_pos (by norm_num)
          have := Nat.mul_pos h₁ h₂
          rw [value_cons]
          omega
        have hmin : minimal (value (b₀ :: tail)) = b₀ :: tail := by
          rw [minimal, if_neg hpos, width_value b₀ tail hb₀, ← List.length_cons, bytes_value]
        refine ⟨(Encbuf.reset).encodeString (b₀ :: tail), ?_, ?_⟩
        · simp [writeBigInt, hpos, hmin]
        · rw [encodeString_eq _ _ hlen, toBytes_of_extends (Extends.str_append _ _)]
          exact hc

/-- `DecodeBytes` succeeds only when the decoder consumed the whole input. -/
theorem decodeBytesWith_inv {α : Type} {dec : StreamM α} {b : List UInt8} {x : α}
    (h : decodeBytesWith dec b = .ok x) :
    ∃ s', dec (newStream b b.length) = .ok x s' ∧ s'.r = [] := by
  unfold decodeBytesWith at h
  split at h
  · rename_i v s' hdec
    split_ifs at h with hleft
    cases h
    exact ⟨s', hdec, List.eq_nil_of_length_eq_zero (by omega)⟩
  · cases h

/-- The decoder's input is all consumed, and what it consumed is `enc`. -/
theorem eq_of_consumed {b enc : List UInt8} {s' : Stream}
    (hc : Consumed (newStream b b.length) s' enc) (hr : s'.r = []) : enc = b := by
  have := hc.1
  rw [hr, List.append_nil] at this
  exact this.symm

theorem encodeToBytes_of_decodeBytes {b : List UInt8} {x : Value} (h : decodeBytes b = .ok x) :
    encodeToBytes x = b := by
  obtain ⟨s', hdec, hr⟩ := decodeBytesWith_inv h
  obtain ⟨hc, -, hfit⟩ := decodeInterface_inv _ _ s' x rfl hdec
  rw [encodeToBytes_eq_rlp x hfit]
  exact eq_of_consumed hc hr

theorem writeUint_of_decodeBytesUint {b : List UInt8} {n : Nat} (h : decodeBytesUint b = .ok n) :
    (writeUint n Encbuf.reset).toBytes = b := by
  obtain ⟨s', hdec, hr⟩ := decodeBytesWith_inv h
  exact eq_of_consumed (uint_inv rfl hdec) hr

theorem writeBigInt_of_decodeBytesBigInt {b : List UInt8} {n : Nat}
    (h : decodeBytesBigInt b = .ok n) : (writeBigInt n Encbuf.reset).map Encbuf.toBytes = .ok b := by
  obtain ⟨s', hdec, hr⟩ := decodeBytesWith_inv h
  obtain ⟨w, hw, hc⟩ := decodeBigInt_inv rfl hdec
  rw [hw, Except.map, eq_of_consumed hc hr]

/-- Decoding accepts only canonical encodings: whatever `DecodeBytes` decodes
into an `interface{}`, a `uint64` or a `*big.Int`, `EncodeToBytes` writes
back as exactly the input. -/
theorem decodeBytes_canonical (b : List UInt8) :
    (∀ x, decodeBytes b = .ok x → encodeToBytes x = b) ∧
    (∀ n, decodeBytesUint b = .ok n → (writeUint n Encbuf.reset).toBytes = b) ∧
    (∀ n, decodeBytesBigInt b = .ok n → (writeBigInt n Encbuf.reset).map Encbuf.toBytes = .ok b) :=
  ⟨fun _ h => encodeToBytes_of_decodeBytes h, fun _ h => writeUint_of_decodeBytesUint h,
    fun _ h => writeBigInt_of_decodeBytesBigInt h⟩

theorem decodeBytes_canonical_0x82 :
    decodeBytes [0x82, 0x04, 0x00] = .ok (.bytes [0x04, 0x00]) ∧
      encodeToBytes (.bytes [0x04, 0x00]) = [0x82, 0x04, 0x00] ∧
    decodeBytesUint [0x82, 0x04, 0x00] = .ok 1024 ∧
      (writeUint 1024 Encbuf.reset).toBytes = [0x82, 0x04, 0x00] ∧
    decodeBytesBigInt [0x82, 0x04, 0x00] = .ok 1024 ∧
      (writeBigInt 1024 Encbuf.reset).map Encbuf.toBytes = .ok [0x82, 0x04, 0x00] := by
  have hdec : decodeBytes [0x82, 0x04, 0x00] = .ok (.bytes [0x04, 0x00]) := by decide +kernel
  have huint : decodeBytesUint [0x82, 0x04, 0x00] = .ok 1024 := by decide +kernel
  have hbig : decodeBytesBigInt [0x82, 0x04, 0x00] = .ok 1024 := by decide +kernel
  exact ⟨hdec, (decodeBytes_canonical _).1 _ hdec, huint, (decodeBytes_canonical _).2.1 _ huint,
    hbig, (decodeBytes_canonical _).2.2 _ hbig⟩

end GoEthereum.Rlp
