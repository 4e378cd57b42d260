import GoEthereum.Rlp.StreamSpec

/-!
`DecodeBytes` reads back what `EncodeToBytes` writes. The decoder is run on
the format's own statement `Value.rlp`, which the encoder produces
(`encodeToBytes_eq_rlp`). A value is decoded from a stream that is about to
read it (`Fresh`), the items of a list from a stream inside a list whose
payload is exactly their encodings (`InList`); both recursions of the decoder
(`decodeInterface` through `decodeListSlice`, and the loop of
`decodeSliceElems`) are followed by one mutual induction over the value.
An integer that `writeUint` writes is read back by `Stream.uint`
(`uint_writeUint`), as the RLPx frame reader decodes a message code.
-/

namespace GoEthereum.Rlp

open GoEthereum.BigEndian GoEthereum.Rlp.Stream

/-- `s` is about to read a fresh value encoded as `enc`, followed by `rest`,
and has room for it. -/
structure Fresh (s : Stream) (enc rest : List UInt8) : Prop where
  kind : s.kind = none
  input : s.r = enc ++ rest
  room : Room s enc.length

/-- `s` is inside a list whose remaining payload is `enc`, followed by
`rest`. -/
structure InList (s : Stream) (enc rest : List UInt8) : Prop where
  kind : s.kind = none
  input : s.r = enc ++ rest
  top : ∃ tos outer, s.stack = tos :: outer ∧ tos.pos + enc.length = tos.size
  limit : s.limited = true → enc.length ≤ s.remaining

/-- The next item of a list is a fresh value. -/
theorem InList.fresh {s : Stream} {a b rest : List UInt8} (h : InList s (a ++ b) rest) :
    Fresh s a (b ++ rest) := by
  obtain ⟨hk, hr, ⟨tos, outer, hst, hend⟩, hlim⟩ := h
  refine ⟨hk, by simp [hr], ?_, ?_⟩
  · intro top htop
    rw [hst, List.head?_cons, Option.mem_def, Option.some.injEq] at htop
    subst htop
    rw [List.length_append] at hend
    omega
  · intro hl
    have := hlim hl
    rw [List.length_append] at this
    omega

/-- After an item, the rest of the payload is left in the list. -/
theorem InList.advance {s s' : Stream} {a b rest : List UInt8} (h : InList s (a ++ b) rest)
    (hadv : Advanced s s' a.length) (hk : s'.kind = none) : InList s' b rest := by
  obtain ⟨-, hr, ⟨tos, outer, hst, hend⟩, hlim⟩ := h
  obtain ⟨hr', hl', hrem', hst'⟩ := hadv
  refine ⟨hk, by simp [hr', hr], ⟨_, outer, by rw [hst', hst, bump], ?_⟩, ?_⟩
  · rw [List.length_append] at hend
    simp only
    omega
  · intro hl
    rw [hl'] at hl
    have := hlim hl
    rw [List.length_append] at this
    simp only [Stream.advance, hl, if_true] at hrem'
    omega

/-- At the end of a list's payload `Kind` reports `EOL`, and so does
`decodeInterface`. -/
theorem decodeInterface_eol (fuel : Nat) (s : Stream) (rest : List UInt8)
    (h : InList s [] rest) :
    decodeInterface (fuel + 1) s = .error .eol { s with kinderr := none } := by
  obtain ⟨hk, -, ⟨tos, outer, hst, hend⟩, -⟩ := h
  have heol : s.stack.head?.any (fun tos => tos.pos = tos.size) = true := by
    simp only [hst, List.head?_cons, Option.any_some, decide_eq_true_eq]
    simpa using hend
  simp only [decodeInterface, nextKind, hk, heol, if_true]

/-- A byte string is decoded from its encoding. -/
theorem decodeInterface_bytes (b : List UInt8) (hb : b.length < 2 ^ 64) (fuel : Nat)
    (s : Stream) (rest : List UInt8) (hs : Fresh s (rlpBytes b) rest) :
    ∃ s', decodeInterface (fuel + 1) s = .ok (.bytes b) s' ∧
      Advanced s s' (rlpBytes b).length ∧ s'.kind = none := by
  obtain ⟨hk, hr, hroom⟩ := hs
  by_cases hsingle : isSingleByte b = true
  · -- a byte below `0x80` stands for itself
    obtain ⟨x, rfl, hx⟩ : ∃ x, b = [x] ∧ x < 0x80 := by
      rcases b with _ | ⟨x, _ | ⟨y, tail⟩⟩
      · simp [isSingleByte] at hsingle
      · exact ⟨x, rfl, by simpa [isSingleByte] using hsingle⟩
      · simp [isSingleByte] at hsingle
    rw [rlpBytes, if_pos hsingle] at hr hroom ⊢
    obtain ⟨t, hread, hadv, hbyte⟩ := readKind_byte { s with kinderr := none } x rest hx hr hroom
    have hnext := nextKind_of_readKind s t .byte 1 0 hk hread hadv (by omega) hroom
    refine ⟨{ t with kind := none, size := 0, kinderr := none }, ?_, hadv, rfl⟩
    simp only [decodeInterface, hnext, reduceCtorEq, if_false]
    rw [bytes_byte _ rfl rfl]
    simp [hbyte]
  · -- any other string: the header, then the payload
    have hrlp : rlpBytes b = lengthPrefix 0x80 b.length ++ b := by
      simp [rlpBytes, hsingle]
    rw [hrlp] at hr hroom ⊢
    rw [List.append_assoc] at hr
    have hroom' : Room s ((lengthPrefix 0x80 b.length).length + b.length) := by
      simpa using hroom
    obtain ⟨t, hread, hadv⟩ := readKind_lengthPrefix { s with kinderr := none } 0x80 .string
      (.inl ⟨rfl, rfl⟩) b.length (b ++ rest) hb hr (hroom.mono (by simp))
    have hnext := nextKind_of_readKind s t .string _ b.length hk hread hadv
      (length_lengthPrefix_pos _ _) hroom'
    -- `Bytes` rejects a lone byte below `0x80` behind a header, which this is not
    have hcanon : ¬ (b.length = 1 ∧ b.headD 0 < 128) := by
      rintro ⟨hlen, hlt⟩
      obtain ⟨x, rfl⟩ := List.length_eq_one_iff.mp hlen
      exact hsingle (by simpa [isSingleByte] using hlt)
    have htr : t.r = b ++ rest := by
      rw [hadv.1]
      simp [hr]
    have hbytes := bytes_string { t with kind := some .string, size := b.length, kinderr := none }
      b rest rfl rfl rfl htr (Room.of_advanced hadv hroom') hcanon
    refine ⟨{ t.advance b.length with r := rest, size := b.length, kinderr := none }, ?_, ?_, rfl⟩
    · simp only [decodeInterface, hnext, reduceCtorEq, if_false, hbytes]
      rfl
    · rw [List.length_append]
      exact hadv.trans (Advanced.advance _ _ _ (by simp [htr]))

/-- The bytes `writeUint` writes for an integer below `2 ^ 64`: `0x80` for
zero, the integer itself below `0x80`, and otherwise its minimal big-endian
bytes behind a string header. -/
theorem toBytes_writeUint_eq (i : Nat) (hi : i < 2 ^ 64) :
    (writeUint i Encbuf.reset).toBytes =
      if i = 0 then [0x80] else if i < 128 then [i.toUInt8]
      else lengthPrefix 0x80 (width i) ++ BigEndian.bytes (width i) i := by
  unfold writeUint
  split_ifs with h0 h128
  · exact toBytes_of_extends (Extends.str_append _ _)
  · exact toBytes_of_extends (Extends.str_append _ _)
  · rw [toBytes_of_extends (Extends.str_append _ _), putint_eq i hi, length_bytes,
      lengthPrefix, if_pos (by have := width_le_eight i hi; omega)]
    rfl

/-- `Stream.uint 64` reads back an integer from the bytes `writeUint` gives
it. -/
theorem uint_writeUint (i : Nat) (hi : i < 2 ^ 64) (s : Stream) (rest : List UInt8)
    (hs : Fresh s (writeUint i Encbuf.reset).toBytes rest) :
    ∃ s', uint 64 s = .ok i s' ∧ Advanced s s' (writeUint i Encbuf.reset).toBytes.length := by
  obtain ⟨hk, hr, hroom⟩ := hs
  rw [toBytes_writeUint_eq i hi] at hr hroom ⊢
  split_ifs at hr hroom ⊢ with h0 h128
  · -- zero is the empty string `0x80`
    subst h0
    have hpre : ([0x80] : List UInt8) = lengthPrefix 0x80 0 := rfl
    rw [hpre] at hr hroom
    obtain ⟨t, hread, hadv⟩ := readKind_lengthPrefix { s with kinderr := none } 0x80 .string
      (.inl ⟨rfl, rfl⟩) 0 rest (by norm_num) hr hroom
    have hnext := nextKind_of_readKind s t .string 1 0 hk hread hadv (by omega) hroom
    refine ⟨{ t with kind := none, size := 0, kinderr := none }, ?_, hadv⟩
    simp [uint, hnext, readUint]
  · -- a byte below `0x80` stands for itself
    have hb : i.toUInt8 < 0x80 := by
      rw [UInt8.lt_iff_toNat_lt]
      simp [Nat.toUInt8, UInt8.toNat_ofNat']
      omega
    obtain ⟨t, hread, hadv, hbyte⟩ := readKind_byte { s with kinderr := none } i.toUInt8 rest hb
      hr hroom
    have hnext := nextKind_of_readKind s t .byte 1 0 hk hread hadv (by omega) hroom
    have hval : i.toUInt8.toNat = i := by
      simp [Nat.toUInt8, UInt8.toNat_ofNat']
      omega
    have hne : i.toUInt8 ≠ 0 := fun h => h0 (by rw [← hval, h]; rfl)
    refine ⟨{ t with kind := none, size := 0, kinderr := none }, ?_, hadv⟩
    simp [uint, hnext, hbyte, hne, hval]
  · -- the minimal big-endian bytes behind a string header of one byte
    have hw := width_le_eight i hi
    have hpos : 0 < i := by omega
    have hpre : lengthPrefix 0x80 (width i) = [0x80 + (width i).toUInt8] :=
      if_pos (by omega)
    have hlen : (lengthPrefix 0x80 (width i)).length = 1 := by rw [hpre]; rfl
    rw [List.append_assoc] at hr
    rw [List.length_append, hlen, length_bytes] at hroom ⊢
    obtain ⟨t, hread, hadv⟩ := readKind_lengthPrefix { s with kinderr := none } 0x80 .string
      (.inl ⟨rfl, rfl⟩) (width i) (BigEndian.bytes (width i) i ++ rest) (by omega) hr
      (hroom.mono (by omega))
    rw [hlen] at hadv
    have hnext := nextKind_of_readKind s t .string 1 (width i) hk hread hadv (by omega) hroom
    have htr : t.r = BigEndian.bytes (width i) i ++ rest := by
      rw [hadv.1, hr, hpre]
      rfl
    obtain ⟨s₂, hu, hadv₂⟩ := readUint_width
      { t with kind := some .string, size := width i, kinderr := none } i rest hpos htr
      (Room.of_advanced hadv hroom)
    refine ⟨s₂, ?_, hadv.trans hadv₂⟩
    simp only [uint, hnext, hu]
    rw [if_neg (by omega), if_neg (by omega)]

/-- Entering a list whose payload `enc` has room: the stream is inside it. -/
theorem InList.enter (t : Stream) (enc rest : List UInt8) (hr : t.r = enc ++ rest)
    (h : Room t enc.length) :
    InList { t with stack := ⟨0, enc.length⟩ :: t.stack, kind := none, size := 0, kinderr := none }
      enc rest :=
  ⟨rfl, hr, ⟨_, t.stack, rfl, Nat.zero_add _⟩, h.2⟩

mutual
/-- `decodeInterface` reads back a value from its encoding, given more fuel
than the encoding has bytes. -/
theorem decodeInterface_rlp : ∀ (v : Value) (fuel : Nat) (s : Stream) (rest : List UInt8),
    v.fits = true → v.rlp.length < fuel → Fresh s v.rlp rest →
    ∃ s', decodeInterface fuel s = .ok v s' ∧ Advanced s s' v.rlp.length ∧ s'.kind = none
  | _, 0, _, _, _, hfuel, _ => absurd hfuel (Nat.not_lt_zero _)
  | .bytes b, fuel + 1, s, rest, hv, _, hs => by
      rw [fits_bytes, decide_eq_true_eq] at hv
      rw [rlp_bytes] at hs ⊢
      exact decodeInterface_bytes b hv fuel s rest hs
  | .list items, fuel + 1, s, rest, hv, hfuel, hs => by
      obtain ⟨hk, hr, hroom⟩ := hs
      rw [fits_list, Bool.and_eq_true, decide_eq_true_eq] at hv
      obtain ⟨hlen, hitems⟩ := hv
      rw [rlp_list] at hr hroom hfuel ⊢
      rw [List.append_assoc] at hr
      rw [List.length_append] at hroom hfuel ⊢
      have hpre := length_lengthPrefix_pos 0xC0 (Value.rlpList items).length
      obtain ⟨t, hread, hadv⟩ := readKind_lengthPrefix { s with kinderr := none } 0xC0 .list
        (.inr ⟨rfl, rfl⟩) _ _ hlen hr (hroom.mono (by omega))
      have hnext := nextKind_of_readKind s t .list _ _ hk hread hadv hpre hroom
      have htr : t.r = Value.rlpList items ++ rest := by
        rw [hadv.1]
        simp [hr]
      have hin := InList.enter t _ rest htr (Room.of_advanced hadv hroom)
      generalize ht₂ :
        ({ t with
            stack := ⟨0, (Value.rlpList items).length⟩ :: t.stack, kind := none, size := 0,
            kinderr := none } : Stream) = t₂ at hin
      -- the items fill the payload exactly; an empty payload skips the loop
      obtain ⟨t', helems, hadv', hk'⟩ : ∃ t',
          (if (Value.rlpList items).length = 0 then (.ok [] t₂ : EStateM.Result Error Stream _)
            else decodeSliceElems (decodeInterface fuel) fuel t₂) = .ok items t' ∧
          Advanced t₂ t' (Value.rlpList items).length ∧ t'.kind = none := by
        by_cases hn : (Value.rlpList items).length = 0
        · have hnil : items = [] := List.eq_nil_of_length_eq_zero
            (Nat.eq_zero_of_le_zero (hn ▸ length_le_rlpList items))
          subst hnil
          refine ⟨t₂, if_pos hn, ?_, hin.kind⟩
          simpa using Advanced.refl t₂
        · rw [if_neg hn]
          exact decodeSliceElems_rlp items fuel fuel _ rest hitems (by omega)
            (fun w hw => by have := length_rlp_le_rlpList hw; omega)
            (by have := length_le_rlpList items; omega) hin
      subst ht₂
      have hst : t'.stack = ⟨(Value.rlpList items).length, (Value.rlpList items).length⟩ :: t.stack := by
        rw [hadv'.2.2.2]
        simp [bump]
      have hslice := decodeListSlice_ok (decodeInterface fuel) fuel
        { t with kind := some .list, size := (Value.rlpList items).length, kinderr := none } t' items
        rfl rfl helems hst
      refine ⟨{ t' with stack := bump t.stack (Value.rlpList items).length, kind := none, size := 0 },
        ?_, hadv.trans ⟨by rw [hadv'.1], hadv'.2.1, hadv'.2.2.1, rfl⟩, rfl⟩
      simp only [decodeInterface, hnext, if_true, hslice]

/-- The loop of `decodeSliceElems` reads the items of a list back, and stops
at the `EOL` after the last one. -/
theorem decodeSliceElems_rlp : ∀ (items : List Value) (F fuel : Nat) (s : Stream)
    (rest : List UInt8), Value.fitsList items = true → 0 < F → (∀ v ∈ items, v.rlp.length < F) →
    items.length < fuel → InList s (Value.rlpList items) rest →
    ∃ s', decodeSliceElems (decodeInterface F) fuel s = .ok items s' ∧
      Advanced s s' (Value.rlpList items).length ∧ s'.kind = none
  | _, _, 0, _, _, _, _, _, hfuel, _ => absurd hfuel (Nat.not_lt_zero _)
  | [], F, fuel + 1, s, rest, _, hF, _, _, hin => by
      obtain ⟨F, rfl⟩ := Nat.exists_eq_succ_of_ne_zero hF.ne'
      refine ⟨{ s with kinderr := none }, ?_, ⟨by simp, rfl, by simp [Stream.advance], by simp⟩,
        hin.kind⟩
      simp only [decodeSliceElems, decodeInterface_eol F s rest hin]
  | v :: vs, F, fuel + 1, s, rest, hfits, hF, hlt, hfuel, hin => by
      rw [fitsList_cons, Bool.and_eq_true] at hfits
      rw [rlpList_cons] at hin ⊢
      obtain ⟨s₁, hdec₁, hadv₁, hk₁⟩ := decodeInterface_rlp v F s (Value.rlpList vs ++ rest)
        hfits.1 (hlt v (by simp)) hin.fresh
      obtain ⟨s₂, hdec₂, hadv₂, hk₂⟩ := decodeSliceElems_rlp vs F fuel s₁ rest hfits.2 hF
        (fun w hw => hlt w (by simp [hw])) (by simpa using hfuel) (hin.advance hadv₁ hk₁)
      refine ⟨s₂, ?_, by rw [List.length_append]; exact hadv₁.trans hadv₂, hk₂⟩
      simp only [decodeSliceElems, hdec₁, hdec₂]
end

/-- Round trip: `DecodeBytes` of what `EncodeToBytes` writes succeeds,
consumes the whole input and returns the value. -/
theorem decodeBytes_encodeToBytes (v : Value) (hv : v.fits = true) :
    decodeBytes (encodeToBytes v) = .ok v := by
  rw [encodeToBytes_eq_rlp v hv]
  have hroom : Room (newStream v.rlp v.rlp.length) v.rlp.length :=
    ⟨by simp [newStream], by simp [newStream]⟩
  obtain ⟨s', hdec, hadv, -⟩ := decodeInterface_rlp v (v.rlp.length + 1)
    (newStream v.rlp v.rlp.length) [] hv (by omega) ⟨rfl, by simp [newStream], hroom⟩
  have hr : s'.r = [] := by
    rw [hadv.1]
    simp [newStream]
  simp [decodeBytes, decodeBytesWith, hdec, hr]

/-! ### Structs of integers

A struct of `uint64` fields is encoded as a list of the fields' integers
and decoded by `List`, one `uint` per field and `ListEnd`. -/

/-- `writeUint` appends to the string data what it writes on its own. -/
theorem writeUint_eq_append (i : Nat) (w : Encbuf) :
    writeUint i w = { w with str := w.str ++ (writeUint i Encbuf.reset).toBytes } := by
  have hreset (out : List UInt8) :
      ({ Encbuf.reset with str := Encbuf.reset.str ++ out } : Encbuf).toBytes = out :=
    toBytes_of_extends (Extends.str_append _ _)
  unfold writeUint
  split_ifs <;> rw [hreset]

theorem checkLimit_kind {n : Nat} {s s' : Stream} {u : Unit} (h : checkLimit n s = .ok u s') :
    s'.kind = s.kind := by
  unfold checkLimit at h
  split_ifs at h <;> cases h <;> rfl

theorem willRead_kind {n : Nat} {s s' : Stream} {u : Unit} (h : willRead n s = .ok u s') :
    s'.kind = none := by
  unfold willRead at h
  dsimp only at h
  split at h
  · split_ifs at h
    exact checkLimit_kind h
  · exact checkLimit_kind h

theorem readByte_kind {s s' : Stream} {b : UInt8} (h : readByte s = .ok b s') : s'.kind = none := by
  unfold readByte at h
  cases hw : willRead 1 s with
  | error e t => rw [hw] at h; cases h
  | ok u t =>
    rw [hw] at h
    dsimp only at h
    split at h
    · cases h
      exact (willRead_kind hw : t.kind = none)
    · cases h

theorem readFull_kind {n : Nat} {s s' : Stream} {bs : List UInt8} (h : readFull n s = .ok bs s') :
    s'.kind = none := by
  unfold readFull at h
  cases hw : willRead n s with
  | error e t => rw [hw] at h; cases h
  | ok u t =>
    rw [hw] at h
    dsimp only at h
    split_ifs at h
    cases h
    exact (willRead_kind hw : t.kind = none)

/-- A read rearms the cache of `Kind`, as `willRead` does in Go. -/
theorem readUint_kind {n v : Nat} {s s' : Stream} (h : readUint n s = .ok v s') :
    s'.kind = none := by
  match n with
  | 0 =>
    cases h
    rfl
  | 1 =>
    unfold readUint at h
    cases hb : readByte s with
    | error e t => rw [hb] at h; cases h
    | ok b t =>
      rw [hb] at h
      cases h
      exact readByte_kind hb
  | n + 2 =>
    simp only [readUint] at h
    cases hf : readFull (n + 2) s with
    | error e t => rw [hf] at h; cases h
    | ok bs t =>
      rw [hf] at h
      dsimp only at h
      split_ifs at h
      cases h
      exact readFull_kind hf

theorem uint_kind {s s' : Stream} {m : Nat} (h : uint 64 s = .ok m s') : s'.kind = none := by
  unfold uint at h
  split at h
  · cases h
  · split_ifs at h
    cases h
    rfl
  · split_ifs at h
    split at h
    · cases h
    · cases h
    · rename_i hu
      split_ifs at h
      cases h
      exact readUint_kind hu
  · cases h

/-- `List` enters a list whose header and payload are next. -/
theorem list_lengthPrefix (s : Stream) (payload rest : List UInt8)
    (hlen : payload.length < 2 ^ 64)
    (hs : Fresh s (lengthPrefix 0xC0 payload.length ++ payload) rest) :
    ∃ t, list s = .ok payload.length t ∧ InList t payload rest := by
  obtain ⟨hk, hr, hroom⟩ := hs
  rw [List.append_assoc] at hr
  rw [List.length_append] at hroom
  have hpre := length_lengthPrefix_pos 0xC0 payload.length
  obtain ⟨t, hread, hadv⟩ := readKind_lengthPrefix { s with kinderr := none } 0xC0 .list
    (.inr ⟨rfl, rfl⟩) _ _ hlen hr (hroom.mono (by omega))
  have hnext := nextKind_of_readKind s t .list _ _ hk hread hadv hpre hroom
  have htr : t.r = payload ++ rest := by
    rw [hadv.1]
    simp [hr]
  refine ⟨_, ?_, InList.enter t _ rest htr (Room.of_advanced hadv hroom)⟩
  simp [list, hnext]

/-- Two integers read back from the list `writeUint` writes them into. -/
theorem uint_uint_lengthPrefix (a b : Nat) (ha : a < 2 ^ 64) (hb : b < 2 ^ 64) (s : Stream)
    (rest : List UInt8)
    (hs : InList s ((writeUint a Encbuf.reset).toBytes ++ (writeUint b Encbuf.reset).toBytes)
      rest) :
    ∃ s₁ s₂, uint 64 s = .ok a s₁ ∧ uint 64 s₁ = .ok b s₂ := by
  obtain ⟨s₁, hu₁, hadv₁⟩ := uint_writeUint a ha s _ hs.fresh
  have hin : InList s₁ ((writeUint b Encbuf.reset).toBytes ++ []) rest := by
    rw [List.append_nil]
    exact hs.advance hadv₁ (uint_kind hu₁)
  obtain ⟨s₂, hu₂, -⟩ := uint_writeUint b hb s₁ _ hin.fresh
  exact ⟨s₁, s₂, hu₁, hu₂⟩

theorem decodeBytes_encodeToBytes_catDog :
    (Value.list [.bytes [0x63, 0x61, 0x74], .bytes [0x64, 0x6f, 0x67]]).fits = true ∧
      decodeBytes (encodeToBytes (.list [.bytes [0x63, 0x61, 0x74], .bytes [0x64, 0x6f, 0x67]])) =
        .ok (.list [.bytes [0x63, 0x61, 0x74], .bytes [0x64, 0x6f, 0x67]]) :=
  ⟨by decide, decodeBytes_encodeToBytes _ (by decide)⟩

end GoEthereum.Rlp
