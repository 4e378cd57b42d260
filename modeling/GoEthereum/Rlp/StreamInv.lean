import GoEthereum.Rlp.StreamSpec

/-!
What a successful `Stream` operation implies: the inversion of each spec
lemma. A read that returns has consumed a prefix of the input
(`Consumed`), and a type tag that `readKind` accepts without error is the
header the encoder writes for the kind and size it reports (`CanonHeader`):
the canonical checks of `readKind` (a long size of 56 or more) and `readUint`
(no leading zero byte) leave exactly the minimal forms.
-/

namespace GoEthereum.Rlp

namespace Stream

open GoEthereum.BigEndian

/-- `s'` is `s` after reading the bytes `bs` off the input. -/
def Consumed (s s' : Stream) (bs : List UInt8) : Prop :=
  s.r = bs ++ s'.r ∧ Advanced s s' bs.length

/-- The header the encoder writes for a value of kind `k` and size `n`; a
value of kind `byte` is the byte `b` itself. -/
def CanonHeader : Kind → Nat → UInt8 → List UInt8 → Prop
  | .byte, n, b, hdr => hdr = [b] ∧ b < 0x80 ∧ n = 0
  | .string, n, _, hdr => hdr = lengthPrefix 0x80 n ∧ n < 2 ^ 64
  | .list, n, _, hdr => hdr = lengthPrefix 0xC0 n ∧ n < 2 ^ 64

theorem Consumed.trans {s₁ s₂ s₃ : Stream} {a b : List UInt8} (h₁ : Consumed s₁ s₂ a)
    (h₂ : Consumed s₂ s₃ b) : Consumed s₁ s₃ (a ++ b) :=
  ⟨by rw [h₁.1, h₂.1, List.append_assoc], by rw [List.length_append]; exact h₁.2.trans h₂.2⟩

/-- Nothing read: the scratch fields may have changed, nothing else. -/
theorem Consumed.nil {s s' : Stream} (hr : s'.r = s.r) (hl : s'.limited = s.limited)
    (hrem : s'.remaining = s.remaining) (hst : s'.stack = s.stack) : Consumed s s' [] :=
  ⟨hr.symm, by rw [hr]; rfl, hl, by simp [Stream.advance, hrem], by rw [hst, List.length_nil, bump_zero]⟩

theorem Consumed.of_readFull (s : Stream) (n : Nat) (hle : n ≤ s.r.length) :
    Consumed s { s.advance n with r := s.r.drop n } (s.r.take n) := by
  refine ⟨(List.take_append_drop n s.r).symm, ?_⟩
  rw [List.length_take, min_eq_left hle]
  exact Advanced.advance s n _ rfl

theorem willRead_inv {s s' : Stream} {n : Nat} {u : Unit} (h : willRead n s = .ok u s') :
    Room s n ∧ s' = s.advance n := by
  unfold willRead checkLimit at h
  match hst : s.stack with
  | [] =>
      simp only [hst] at h
      split at h
      · split at h
        · cases h
        · rename_i hl hle
          cases h
          exact ⟨⟨by simp [hst], fun _ => by omega⟩, by simp [Stream.advance, hst, hl, bump]⟩
      · rename_i hl
        cases h
        exact ⟨⟨by simp [hst], fun h' => absurd h' hl⟩, by simp [Stream.advance, hst, hl, bump]⟩
  | tos :: outer =>
      simp only [hst] at h
      split at h
      · cases h
      · rename_i hroom
        split at h
        · split at h
          · cases h
          · rename_i hl hle
            cases h
            refine ⟨⟨by simp [hst]; omega, fun _ => by omega⟩, ?_⟩
            simp [Stream.advance, hst, hl, bump]
        · rename_i hl
          cases h
          refine ⟨⟨by simp [hst]; omega, fun h' => absurd h' hl⟩, ?_⟩
          simp [Stream.advance, hst, hl, bump]

theorem readByte_inv {s s' : Stream} {b : UInt8} (h : readByte s = .ok b s') :
    Room s 1 ∧ ∃ rest, s.r = b :: rest ∧ s' = { s.advance 1 with r := rest } := by
  unfold readByte at h
  split at h
  · cases h
  · rename_i s₁ hread
    obtain ⟨hroom, rfl⟩ := willRead_inv hread
    split at h
    · rename_i x rest hr
      cases h
      exact ⟨hroom, rest, hr, rfl⟩
    · cases h

theorem readFull_inv {s s' : Stream} {n : Nat} {bs : List UInt8} (h : readFull n s = .ok bs s') :
    Room s n ∧ n ≤ s.r.length ∧ bs = s.r.take n ∧ s' = { s.advance n with r := s.r.drop n } := by
  unfold readFull at h
  split at h
  · cases h
  · rename_i s₁ hread
    obtain ⟨hroom, rfl⟩ := willRead_inv hread
    split at h
    · rename_i hle
      cases h
      exact ⟨hroom, hle, rfl, rfl⟩
    · cases h

/-- A length or integer of `w ≥ 1` bytes that `readUint` accepts has no
leading zero byte: it is the minimal big-endian form of its value. -/
theorem readUint_inv {s s' : Stream} {w m : Nat} (hw : 0 < w) (h : readUint w s = .ok m s') :
    ∃ bs, Consumed s s' bs ∧ s'.kind = none ∧ width m = w ∧ bs = BigEndian.bytes w m := by
  match w, hw with
  | 1, _ =>
      simp only [readUint] at h
      split at h
      · rename_i b s₁ hb
        cases h
        obtain ⟨-, rest, hr, rfl⟩ := readByte_inv hb
        refine ⟨[b], ⟨by simp [hr], by simp [hr], rfl, rfl, rfl⟩, rfl, ?_, ?_⟩
        · simp [width, b.toNat_lt]
        · simp [BigEndian.bytes, Nat.toUInt8, Nat.mod_eq_of_lt b.toNat_lt]
      · cases h
  | k + 2, _ =>
      simp only [readUint] at h
      split at h
      · cases h
      · rename_i buf s₁ hfull
        split at h
        · cases h
        · rename_i hhead
          cases h
          obtain ⟨-, hle, rfl, rfl⟩ := readFull_inv hfull
          have hlen : (s.r.take (k + 2)).length = k + 2 := by
            rw [List.length_take, min_eq_left hle]
          refine ⟨_, Consumed.of_readFull s (k + 2) hle, rfl, ?_, ?_⟩
          · -- no leading zero: the length bytes are minimal
            obtain ⟨b₀, tail, hbuf⟩ := List.exists_cons_of_length_pos
              (by omega : 0 < (s.r.take (k + 2)).length)
            rw [hbuf, List.head?_cons, Option.some.injEq] at hhead
            rw [hbuf, List.length_cons] at hlen
            rw [hbuf, width_value b₀ tail hhead, hlen]
          · conv_lhs => rw [← bytes_value (s.r.take (k + 2)), hlen]

theorem tag_add_sub (off b : UInt8) : off + (b - off).toNat.toUInt8 = b := by
  rw [Nat.toUInt8, UInt8.ofNat_toNat, UInt8.add_comm, UInt8.sub_add_cancel]

/-- A tag byte of the short form is the prefix `lengthPrefix` writes for the
size it gives. -/
theorem lengthPrefix_short (off b : UInt8) (hlo : off.toNat ≤ b.toNat)
    (hhi : b.toNat < off.toNat + 56) : [b] = lengthPrefix off (b - off).toNat := by
  have hsub : (b - off).toNat = b.toNat - off.toNat :=
    UInt8.toNat_sub_of_le _ _ (UInt8.le_iff_toNat_le.mpr hlo)
  rw [lengthPrefix, if_pos (by omega), tag_add_sub]

/-- A tag byte of the long form, followed by the minimal bytes of a size of
56 or more, is the prefix `lengthPrefix` writes for that size. -/
theorem lengthPrefix_long (off base b : UInt8) (m : Nat) (hbase : off + 55 = base)
    (hm : ¬ m < 56) (hw : width m = (b - base).toNat) :
    b :: BigEndian.bytes (b - base).toNat m = lengthPrefix off m := by
  rw [lengthPrefix, if_neg hm, hw, hbase, tag_add_sub]

/-- The size after a long-form tag fits in the eight bytes it may have. -/
theorem lt_of_width_le {m w : Nat} (hw : width m = w) (h8 : w ≤ 8) : m < 2 ^ 64 := by
  have := lt_pow_width m
  rw [hw] at this
  calc m < 256 ^ w := this
    _ ≤ 256 ^ 8 := Nat.pow_le_pow_right (by norm_num) h8
    _ = 2 ^ 64 := by norm_num

/-- A type tag that `readKind` reads without error is the header the encoder
writes for the kind and size it reports. -/
theorem readKind_inv {s s' : Stream} {k : Kind} {n : Nat} (h : readKind s = .ok (k, n, none) s') :
    ∃ hdr, Consumed s s' hdr ∧ s'.kind = none ∧ CanonHeader k n s'.byteval hdr := by
  unfold readKind at h
  split at h
  · simp at h
  · rename_i b s₁ hb
    obtain ⟨-, rest, hr, rfl⟩ := readByte_inv hb
    have hone : Consumed s { s.advance 1 with r := rest, byteval := 0 } [b] :=
      ⟨by simp [hr], by simp [hr], rfl, rfl, rfl⟩
    split_ifs at h with h₁ h₂ h₃ h₄
    · -- a byte below `0x80` is a value of its own
      cases h
      exact ⟨[b], ⟨by simp [hr], by simp [hr], rfl, rfl, rfl⟩, rfl, rfl, h₁, rfl⟩
    · -- a short string
      simp only [UInt8.lt_iff_toNat_lt, UInt8.reduceToNat] at h₁ h₂
      cases h
      exact ⟨[b], hone, rfl, lengthPrefix_short 0x80 b (by simp; omega) (by simp; omega),
        by simp [UInt8.toNat_sub_of_le _ _ (UInt8.le_iff_toNat_le.mpr (by simp; omega : (0x80 : UInt8).toNat ≤ b.toNat))]; omega⟩
    · -- a long string: the size bytes follow
      simp only [UInt8.lt_iff_toNat_lt, UInt8.reduceToNat] at h₁ h₂ h₃
      have hw : (b - 0xB7).toNat = b.toNat - 183 :=
        UInt8.toNat_sub_of_le _ _ (UInt8.le_iff_toNat_le.mpr (by simp; omega))
      dsimp only at h
      split at h
      · rename_i size s₂ hu
        obtain ⟨bs, hcons, hk₂, hwidth, hbs⟩ := readUint_inv (by omega) hu
        split_ifs at h with hsize
        · simp at h
        · cases h
          refine ⟨b :: bs, hone.trans hcons, hk₂, ?_, lt_of_width_le hwidth (by omega)⟩
          rw [hbs]
          exact lengthPrefix_long 0x80 0xB7 b _ (by decide) hsize hwidth
      · simp at h
    · -- a short list
      simp only [UInt8.lt_iff_toNat_lt, UInt8.reduceToNat] at h₁ h₂ h₃ h₄
      cases h
      exact ⟨[b], hone, rfl, lengthPrefix_short 0xC0 b (by simp; omega) (by simp; omega),
        by simp [UInt8.toNat_sub_of_le _ _ (UInt8.le_iff_toNat_le.mpr (by simp; omega : (0xC0 : UInt8).toNat ≤ b.toNat))]; omega⟩
    · -- a long list
      simp only [UInt8.lt_iff_toNat_lt, UInt8.reduceToNat, not_lt] at h₁ h₂ h₃ h₄
      have hw : (b - 0xF7).toNat = b.toNat - 247 :=
        UInt8.toNat_sub_of_le _ _ (UInt8.le_iff_toNat_le.mpr (by simp; omega))
      dsimp only at h
      split at h
      · rename_i size s₂ hu
        obtain ⟨bs, hcons, hk₂, hwidth, hbs⟩ := readUint_inv (by omega) hu
        split_ifs at h with hsize
        · simp at h
        · cases h
          refine ⟨b :: bs, hone.trans hcons, hk₂, ?_, lt_of_width_le hwidth (by have := b.toNat_lt; omega)⟩
          rw [hbs]
          exact lengthPrefix_long 0xC0 0xF7 b _ (by decide) hsize hwidth
      · simp at h

/-- `Kind` on a fresh value returns only after a header that `readKind`
accepted and that fits the enclosing list; the kind is then cached. -/
theorem nextKind_inv {s s₁ : Stream} {k : Kind} {n : Nat} (hk : s.kind = none)
    (h : nextKind s = .ok (k, n) s₁) :
    ∃ t hdr, Consumed s t hdr ∧ CanonHeader k n t.byteval hdr ∧
      s₁ = { t with kind := some k, size := n, kinderr := none } := by
  unfold nextKind at h
  rw [hk] at h
  dsimp only at h
  split at h
  · cases h
  · split at h
    · rename_i k' size err t hread
      split at h
      · rename_i hnone
        cases h
        obtain rfl : err = none := (Option.or_eq_none_iff.mp hnone).1
        obtain ⟨hdr, hcons, -, hcanon⟩ := readKind_inv hread
        exact ⟨t, hdr, hcons, hcanon, by rw [hnone]⟩
      · cases h
    · cases h

/-! `EOL` is reported only by `Kind`, at the end of a list: none of the
reads, and none of the decoders once the kind is known, return it. -/

theorem willRead_ne_eol (n : Nat) (s s' : Stream) : willRead n s ≠ .error .eol s' := by
  intro h
  unfold willRead checkLimit at h
  dsimp only at h
  split at h
  · split_ifs at h <;> simp at h
  · split_ifs at h
    simp at h

theorem readByte_ne_eol (s s' : Stream) : readByte s ≠ .error .eol s' := by
  intro h
  unfold readByte at h
  split at h
  · rename_i e s₁ hread
    cases h
    exact willRead_ne_eol 1 s _ hread
  · split at h <;> simp at h

theorem readFull_ne_eol (n : Nat) (s s' : Stream) : readFull n s ≠ .error .eol s' := by
  intro h
  unfold readFull at h
  split at h
  · rename_i e s₁ hread
    cases h
    exact willRead_ne_eol n s _ hread
  · split_ifs at h
    simp at h

theorem readUint_ne_eol (w : Nat) (s s' : Stream) : readUint w s ≠ .error .eol s' := by
  intro h
  match w with
  | 0 => simp [readUint] at h
  | 1 =>
      simp only [readUint] at h
      split at h
      · simp at h
      · rename_i e s₁ hread
        cases h
        exact readByte_ne_eol s _ hread
  | k + 2 =>
      simp only [readUint] at h
      split at h
      · rename_i e s₁ hread
        cases h
        exact readFull_ne_eol (k + 2) s _ hread
      · split_ifs at h
        simp at h

theorem readKind_ne_error (s s' : Stream) (e : Error) : readKind s ≠ .error e s' := by
  intro h
  unfold readKind at h
  split at h
  · simp at h
  · dsimp only at h
    split_ifs at h <;> (try split at h) <;> simp at h

/-- The error `readKind` reports is never `EOL`. -/
theorem readKind_err_ne_eol {s s' : Stream} {k : Kind} {n : Nat} {e : Error}
    (h : readKind s = .ok (k, n, some e) s') : e ≠ .eol := by
  rintro rfl
  unfold readKind at h
  split at h
  · rename_i e' s₁ hread
    dsimp only at h
    injection h with hval
    simp only [Prod.mk.injEq, Option.some.injEq] at hval
    obtain ⟨-, -, he⟩ := hval
    -- the adjustment at toplevel gives `EOF`, never `EOL`
    split_ifs at he
    exact readByte_ne_eol s s₁ (he ▸ hread)
  · dsimp only at h
    split_ifs at h
    all_goals first
      | simp at h
      | split at h
        · injection h with hval
          simp only [Prod.mk.injEq] at hval
          split_ifs at hval <;> simp at hval
        · rename_i e' s₂ hread
          injection h with hval
          simp only [Prod.mk.injEq, Option.some.injEq] at hval
          obtain ⟨-, -, rfl⟩ := hval
          exact readUint_ne_eol _ _ s₂ hread

theorem kindCheck_ne_eol (s : Stream) (n : Nat) : kindCheck s n ≠ some .eol := by
  unfold kindCheck
  split <;> split_ifs <;> simp

/-- `Kind` on a fresh value reports `EOL` only from its end-of-list check,
which leaves the stream as it was. -/
theorem nextKind_eol {s s' : Stream} (hk : s.kind = none) (h : nextKind s = .error .eol s') :
    s' = { s with kinderr := none } := by
  unfold nextKind at h
  rw [hk] at h
  dsimp only at h
  split at h
  · cases h
    rw [hk]
  · split at h
    · rename_i k size err t hread
      split at h
      · simp at h
      · rename_i e he
        cases h
        rcases Option.or_eq_some_iff.mp he with hsome | ⟨-, hcheck⟩
        · exact absurd rfl (readKind_err_ne_eol (hsome ▸ hread))
        · exact absurd hcheck (kindCheck_ne_eol t size)
    · rename_i e t hread
      exact absurd hread (readKind_ne_error _ _ _)

/-- `Bytes` reads the same as `Kind` and then `Bytes` on the cached kind. -/
theorem bytes_eq_cached {s s₁ : Stream} {k : Kind} {n : Nat} (h : nextKind s = .ok (k, n) s₁)
    (hk : s₁.kind = some k) (he : s₁.kinderr = none) (hsize : s₁.size = n) :
    bytes s = bytes s₁ := by
  unfold bytes
  rw [h, nextKind_cached s₁ k hk he, hsize]

/-- `Bytes` after a canonical header: a string's payload is read, and a lone
byte below `0x80` behind a header is rejected, so the header and payload
together are `rlpBytes` of the result. -/
theorem bytes_cached_inv {s t s' : Stream} {k : Kind} {n : Nat} {hdr b : List UInt8}
    (hcons : Consumed s t hdr) (hcanon : CanonHeader k n t.byteval hdr)
    (h : bytes { t with kind := some k, size := n, kinderr := none } = .ok b s') :
    Consumed s s' (rlpBytes b) ∧ s'.kind = none ∧ b.length < 2 ^ 64 := by
  unfold bytes at h
  rw [nextKind_cached _ k rfl rfl] at h
  cases k with
  | byte =>
      obtain ⟨rfl, hlt, -⟩ := hcanon
      cases h
      have hsingle : rlpBytes [t.byteval] = [t.byteval] := by
        simp [rlpBytes, isSingleByte, hlt]
      exact ⟨by rw [hsingle]; exact hcons, rfl, by simp⟩
  | string =>
      obtain ⟨rfl, hn⟩ := hcanon
      dsimp only at h
      split at h
      · cases h
      · rename_i data t₂ hfull
        split_ifs at h with hc
        cases h
        obtain ⟨-, hle, rfl, rfl⟩ := readFull_inv hfull
        have hlen : (t.r.take n).length = n := by
          rw [List.length_take, min_eq_left hle]
        -- behind a header the payload is never a lone byte below `0x80`
        have hsingle : isSingleByte (t.r.take n) = false := by
          rcases hb : t.r.take n with _ | ⟨x, _ | ⟨y, tail⟩⟩
          · rfl
          · rw [hb, List.length_singleton] at hlen
            subst hlen
            rw [hb] at hc
            simpa [isSingleByte] using hc
          · rfl
        have hrlp : rlpBytes (t.r.take n) = lengthPrefix 0x80 n ++ t.r.take n := by
          rw [rlpBytes, hsingle, hlen]
          rfl
        have hread : Consumed t { t.advance n with r := t.r.drop n } (t.r.take n) :=
          Consumed.of_readFull t n hle
        exact ⟨by rw [hrlp]; exact hcons.trans hread, rfl, by rw [hlen]; exact hn⟩
  | list => cases h

theorem listEnd_inv {s s' : Stream} {u : Unit} (h : listEnd s = .ok u s') :
    ∃ tos outer, s.stack = tos :: outer ∧ tos.pos = tos.size ∧
      s' = { s with stack := bump outer tos.size, kind := none, size := 0 } := by
  unfold listEnd at h
  split at h
  · cases h
  · rename_i tos outer hst
    split_ifs at h with hend
    cases h
    refine ⟨tos, outer, hst, not_not.mp hend, ?_⟩
    cases outer <;> rfl

/-- `Bytes` on a fresh value: the header and payload it read are `rlpBytes`
of the result. -/
theorem bytes_inv {s s' : Stream} {b : List UInt8} (hk : s.kind = none) (h : bytes s = .ok b s') :
    Consumed s s' (rlpBytes b) ∧ s'.kind = none ∧ b.length < 2 ^ 64 := by
  cases hnext : nextKind s with
  | error e s₁ =>
      unfold bytes at h
      rw [hnext] at h
      cases h
  | ok kn s₁ =>
      obtain ⟨k, n⟩ := kn
      obtain ⟨t, hdr, hcons, hcanon, rfl⟩ := nextKind_inv hk hnext
      rw [bytes_eq_cached hnext rfl rfl rfl] at h
      exact bytes_cached_inv hcons hcanon h

end Stream

end GoEthereum.Rlp
