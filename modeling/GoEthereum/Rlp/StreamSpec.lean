import GoEthereum.Rlp.Stream
import GoEthereum.Rlp.EncodeCorrect

/-!
What each `Stream` operation does on input that fits. A read of `n` bytes
advances the innermost open list and the input limit by `n` (`advance`); it
succeeds when both have room for `n` more bytes (`Room`). A type tag that
`lengthPrefix` wrote is read back as its kind and size, and the values the
encoder writes are read back by `decodeInterface`; `Advanced` records where
the stream stands afterwards.
-/

namespace GoEthereum.Rlp

namespace Stream

open GoEthereum.BigEndian

/-- The open lists after `n` more bytes of the innermost one are read. -/
def bump : List ListPos → Nat → List ListPos
  | [], _ => []
  | tos :: outer, n => { tos with pos := tos.pos + n } :: outer

/-- The stream after `willRead n`: `kind` rearmed, the innermost list and the
limit advanced. -/
def advance (s : Stream) (n : Nat) : Stream :=
  { s with kind := none, stack := bump s.stack n,
           remaining := if s.limited then s.remaining - n else s.remaining }

/-- Room for `n` more bytes in the innermost list and in the input limit. -/
def Room (s : Stream) (n : Nat) : Prop :=
  (∀ tos ∈ s.stack.head?, n ≤ tos.size - tos.pos) ∧ (s.limited = true → n ≤ s.remaining)

/-- `s'` stands `n` bytes after `s`: the input, the limit and the open lists
moved as `n` reads move them. The other fields are whatever the last read
left. -/
def Advanced (s s' : Stream) (n : Nat) : Prop :=
  s'.r = s.r.drop n ∧ s'.limited = s.limited ∧
    s'.remaining = (s.advance n).remaining ∧ s'.stack = bump s.stack n

@[simp] theorem bump_zero (st : List ListPos) : bump st 0 = st := by
  cases st <;> simp [bump]

theorem bump_bump (st : List ListPos) (m n : Nat) : bump (bump st m) n = bump st (m + n) := by
  cases st <;> simp [bump, Nat.add_assoc]

@[simp] theorem advance_limited (s : Stream) (n : Nat) : (s.advance n).limited = s.limited := rfl

@[simp] theorem advance_r (s : Stream) (n : Nat) : (s.advance n).r = s.r := rfl

@[simp] theorem advance_stack (s : Stream) (n : Nat) : (s.advance n).stack = bump s.stack n := rfl

theorem Room.mono {s : Stream} {m n : Nat} (h : Room s n) (hmn : m ≤ n) : Room s m :=
  ⟨fun tos htos => le_trans hmn (h.1 tos htos), fun hl => le_trans hmn (h.2 hl)⟩

theorem Room.advance {s : Stream} {m n : Nat} (h : Room s (m + n)) : Room (s.advance m) n := by
  refine ⟨?_, ?_⟩
  · intro tos htos
    match hst : s.stack with
    | [] => simp [bump, hst] at htos
    | top :: outer =>
        simp only [advance_stack, hst, bump, List.head?_cons, Option.mem_def,
          Option.some.injEq] at htos
        subst htos
        have := h.1 top (by simp [hst])
        simp only
        omega
  · intro hl
    rw [advance_limited] at hl
    have := h.2 hl
    simp only [Stream.advance, hl, if_true]
    omega

theorem Advanced.refl (s : Stream) : Advanced s s 0 := by
  simp [Advanced, Stream.advance]

theorem Advanced.trans {s₁ s₂ s₃ : Stream} {m n : Nat} (h₁ : Advanced s₁ s₂ m)
    (h₂ : Advanced s₂ s₃ n) : Advanced s₁ s₃ (m + n) := by
  obtain ⟨hr₁, hl₁, hrem₁, hst₁⟩ := h₁
  obtain ⟨hr₂, hl₂, hrem₂, hst₂⟩ := h₂
  refine ⟨by rw [hr₂, hr₁, List.drop_drop], hl₂.trans hl₁, ?_, by rw [hst₂, hst₁, bump_bump]⟩
  simp only [Stream.advance] at hrem₁ hrem₂ ⊢
  rw [hrem₂, hl₁, hrem₁]
  split <;> omega

theorem Advanced.advance (s : Stream) (n : Nat) (rest : List UInt8) (hr : s.r.drop n = rest) :
    Advanced s { s.advance n with r := rest } n :=
  ⟨hr.symm, rfl, rfl, rfl⟩

/-- The room left after an advance. -/
theorem Room.of_advanced {s s' : Stream} {m n : Nat} (hadv : Advanced s s' m)
    (h : Room s (m + n)) : Room s' n := by
  obtain ⟨-, hl, hrem, hst⟩ := hadv
  have hroom : Room (s.advance m) n := h.advance
  exact ⟨by rw [hst]; exact hroom.1, by rw [hl, hrem]; exact hroom.2⟩

theorem willRead_ok (s : Stream) (n : Nat) (h : Room s n) :
    willRead n s = .ok () (s.advance n) := by
  unfold willRead checkLimit
  match hst : s.stack with
  | [] =>
      have hlim := h.2
      cases hl : s.limited
      · simp [Stream.advance, hst, hl, bump]
      · simp only [if_true, hl, Stream.advance, hst, bump]
        rw [if_neg (by have := hlim hl; omega)]
  | tos :: outer =>
      have htos := h.1 tos (by simp [hst])
      have hlim := h.2
      simp only [if_neg (show ¬ n > tos.size - tos.pos by omega)]
      cases hl : s.limited
      · simp [Stream.advance, hst, hl, bump]
      · simp only [if_true, hl, Stream.advance, hst, bump]
        rw [if_neg (by have := hlim hl; omega)]

theorem readByte_ok (s : Stream) (b : UInt8) (rest : List UInt8) (hr : s.r = b :: rest)
    (h : Room s 1) : readByte s = .ok b { s.advance 1 with r := rest } := by
  simp [readByte, willRead_ok s 1 h, hr]

theorem readFull_ok (s : Stream) (bs rest : List UInt8) (hr : s.r = bs ++ rest)
    (h : Room s bs.length) : readFull bs.length s = .ok bs { s.advance bs.length with r := rest } := by
  simp [readFull, willRead_ok s bs.length h, hr]

theorem toNat_tag (off : UInt8) (m : Nat) (h : off.toNat + m < 256) :
    (off + m.toUInt8).toNat = off.toNat + m := by
  rw [UInt8.toNat_add, Nat.toUInt8, UInt8.toNat_ofNat', Nat.mod_eq_of_lt (by omega : m < 256)]
  exact Nat.mod_eq_of_lt h

/-- A length field in its minimal big-endian form is read back. -/
theorem readUint_width (s : Stream) (n : Nat) (rest : List UInt8) (hn : 0 < n)
    (hr : s.r = BigEndian.bytes (width n) n ++ rest) (h : Room s (width n)) :
    ∃ s', readUint (width n) s = .ok n s' ∧ Advanced s s' (width n) := by
  obtain ⟨b, tail, hbs, hb0⟩ := head_bytes_width_ne_zero n hn
  have hlt := lt_pow_width n
  match hw : width n with
  | 0 => exact absurd hw (Nat.pos_iff_ne_zero.mp (width_pos n))
  | 1 =>
      -- one length byte: `readByte`
      have hone : BigEndian.bytes 1 n = [(n % 256).toUInt8] := rfl
      rw [hw, hone] at hr
      rw [hw] at h hlt
      refine ⟨_, ?_, Advanced.advance s 1 rest (by simp [hr])⟩
      simp only [readUint, readByte_ok s _ rest hr h]
      congr 1
      simp [Nat.toUInt8, UInt8.toNat_ofNat']
      omega
  | w + 2 =>
      -- several: `readFull`, whose first byte is not zero
      rw [hw] at hr h hbs hlt
      have hlen : (BigEndian.bytes (w + 2) n).length = w + 2 := length_bytes _ _
      refine ⟨_, ?_, Advanced.advance s (w + 2) rest (by simp [hr])⟩
      have hfull := readFull_ok s _ rest hr (by rw [hlen]; exact h)
      rw [hlen] at hfull
      simp only [readUint, hfull, hbs, List.head?_cons, Option.some.injEq, hb0, if_false]
      rw [← hbs, value_bytes, Nat.mod_eq_of_lt hlt]

/-- The byte below `0x80` that stands for itself is read as kind `byte`. -/
theorem readKind_byte (s : Stream) (b : UInt8) (rest : List UInt8) (hb : b < 0x80)
    (hr : s.r = b :: rest) (h : Room s 1) :
    ∃ s', readKind s = .ok (.byte, 0, none) s' ∧ Advanced s s' 1 ∧ s'.byteval = b := by
  refine ⟨{ s.advance 1 with r := rest, byteval := b }, ?_, ⟨by simp [hr], rfl, rfl, rfl⟩, rfl⟩
  simp [readKind, readByte_ok s b rest hr h, hb]

theorem width_le_eight (n : Nat) (hn : n < 2 ^ 64) : width n ≤ 8 :=
  (width_le_iff n 8 (by norm_num)).mpr (by simpa using hn)

/-- A header that `lengthPrefix` wrote for a string or a list is read back as
its kind and payload size. -/
theorem readKind_lengthPrefix (s : Stream) (off : UInt8) (k : Kind)
    (hk : (off = 0x80 ∧ k = .string) ∨ (off = 0xC0 ∧ k = .list)) (n : Nat) (rest : List UInt8)
    (hn : n < 2 ^ 64) (hr : s.r = lengthPrefix off n ++ rest)
    (h : Room s (lengthPrefix off n).length) :
    ∃ s', readKind s = .ok (k, n, none) s' ∧ Advanced s s' (lengthPrefix off n).length := by
  have hoff : off.toNat = 128 ∨ off.toNat = 192 := by
    rcases hk with ⟨rfl, -⟩ | ⟨rfl, -⟩ <;> simp
  by_cases hshort : n < 56
  · -- short form: the size is in the tag byte
    rw [lengthPrefix, if_pos hshort] at hr h ⊢
    have htag := toNat_tag off n (by omega)
    refine ⟨{ s.advance 1 with r := rest, byteval := 0 }, ?_, by simp [hr], rfl, rfl, rfl⟩
    simp only [readKind, readByte_ok s _ rest hr h, UInt8.lt_iff_toNat_lt, htag,
      UInt8.toNat_sub, UInt8.reduceToNat]
    rcases hk with ⟨rfl, rfl⟩ | ⟨rfl, rfl⟩
    · simp only [UInt8.reduceToNat] at htag ⊢
      rw [if_neg (by omega), if_pos (by omega)]
      simp
      omega
    · simp only [UInt8.reduceToNat] at htag ⊢
      rw [if_neg (by omega), if_neg (by omega), if_neg (by omega), if_pos (by omega)]
      simp
      omega
  · -- long form: the tag byte counts the length bytes that follow
    have hwidth := width_le_eight n hn
    have hpos := width_pos n
    rw [lengthPrefix, if_neg hshort] at hr h ⊢
    rw [List.cons_append] at hr
    rw [List.length_cons, BigEndian.length_bytes] at h ⊢
    have hoff55 : (off + 55).toNat = off.toNat + 55 := by
      rw [UInt8.toNat_add]
      simp only [UInt8.reduceToNat]
      omega
    have htag := toNat_tag (off + 55) (width n) (by omega)
    rw [hoff55] at htag
    -- after the tag byte, the length bytes
    have hadv₁ : Advanced s
        { s.advance 1 with r := BigEndian.bytes (width n) n ++ rest, byteval := 0 } 1 :=
      ⟨by simp [hr], rfl, rfl, rfl⟩
    obtain ⟨s₂, hread, hadv₂⟩ := readUint_width _ n rest (by omega) rfl
      (Room.of_advanced hadv₁ (by rw [Nat.add_comm]; exact h))
    refine ⟨s₂, ?_, by rw [Nat.add_comm]; exact hadv₁.trans hadv₂⟩
    simp only [readKind, readByte_ok s _ _ hr (h.mono (by omega)), UInt8.lt_iff_toNat_lt, htag,
      UInt8.toNat_sub, UInt8.reduceToNat]
    rcases hk with ⟨rfl, rfl⟩ | ⟨rfl, rfl⟩
    · simp only [UInt8.reduceToNat] at htag ⊢
      rw [if_neg (by omega), if_neg (by omega), if_pos (by omega),
        show (256 - 183 + (128 + 55 + width n)) % 256 = width n by omega]
      rw [hread]
      simp [hshort]
    · simp only [UInt8.reduceToNat] at htag ⊢
      rw [if_neg (by omega), if_neg (by omega), if_neg (by omega), if_neg (by omega),
        show (256 - 247 + (192 + 55 + width n)) % 256 = width n by omega]
      rw [hread]
      simp [hshort]
theorem not_eol_of_room (s : Stream) (m : Nat) (h : Room s m) (hm : 0 < m) :
    s.stack.head?.any (fun tos => tos.pos = tos.size) = false := by
  match hst : s.stack with
  | [] => rfl
  | tos :: _ =>
      have := h.1 tos (by simp [hst])
      simp only [List.head?_cons, Option.any_some, decide_eq_false_iff_not]
      omega

theorem kindCheck_of_room (s : Stream) (n : Nat) (h : Room s n) : kindCheck s n = none := by
  unfold kindCheck
  match hst : s.stack with
  | [] =>
      have hlim := h.2
      simp only
      rw [if_neg]
      rintro ⟨hl, hgt⟩
      have := hlim hl
      omega
  | tos :: _ =>
      have := h.1 tos (by simp [hst])
      simp only
      rw [if_neg (by omega)]

/-- `Kind` on a fresh value: the header of `m` bytes that `readKind` reads
without error is cached with its size, when the payload of `n` bytes has
room. -/
theorem nextKind_of_readKind (s t : Stream) (k : Kind) (m n : Nat) (hk : s.kind = none)
    (hread : readKind { s with kinderr := none } = .ok (k, n, none) t)
    (hadv : Advanced s t m) (hm : 0 < m) (h : Room s (m + n)) :
    nextKind s = .ok (k, n) { t with kind := some k, size := n, kinderr := none } := by
  have heol := not_eol_of_room s (m + n) h (by omega)
  have hcheck := kindCheck_of_room t n (Room.of_advanced hadv h)
  -- the fresh read sees the stream with `kind` already `none`
  simp only [hk] at hread
  simp only [nextKind, hk, heol, Bool.false_eq_true, if_false, hread, hcheck, Option.or_none]

/-- `Kind` again: the cached kind and size. -/
theorem nextKind_cached (s : Stream) (k : Kind) (hk : s.kind = some k) (he : s.kinderr = none) :
    nextKind s = .ok (k, s.size) s := by
  simp [nextKind, hk, he]

theorem bytes_byte (t : Stream) (hk : t.kind = some .byte) (he : t.kinderr = none) :
    bytes t = .ok [t.byteval] { t with kind := none } := by
  simp [bytes, nextKind_cached t .byte hk he]

theorem bytes_string (t : Stream) (b rest : List UInt8) (hk : t.kind = some .string)
    (he : t.kinderr = none) (hsize : t.size = b.length) (hr : t.r = b ++ rest)
    (h : Room t b.length) (hcanon : ¬ (b.length = 1 ∧ b.headD 0 < 128)) :
    bytes t = .ok b { t.advance b.length with r := rest } := by
  simp only [bytes, nextKind_cached t .string hk he, hsize, readFull_ok t b rest hr h]
  rw [if_neg hcanon]

theorem list_ok (t : Stream) (hk : t.kind = some .list) (he : t.kinderr = none) :
    list t = .ok t.size { t with stack := ⟨0, t.size⟩ :: t.stack, kind := none, size := 0 } := by
  simp [list, nextKind_cached t .list hk he]

theorem listEnd_ok (t : Stream) (tos : ListPos) (outer : List ListPos) (hst : t.stack = tos :: outer)
    (hend : tos.pos = tos.size) :
    listEnd t = .ok () { t with stack := bump outer tos.size, kind := none, size := 0 } := by
  cases outer <;> simp [listEnd, hst, hend, bump]

end Stream

open GoEthereum.Rlp.Stream

/-- `decodeListSlice` on a cached list kind: `List` opens the list, the
elements are read until they fill it, and `ListEnd` closes it and advances
the enclosing list past it. -/
theorem decodeListSlice_ok {α : Type} (elemdec : StreamM α) (fuel : Nat) (t t' : Stream)
    (items : List α) (hk : t.kind = some .list) (he : t.kinderr = none)
    (helems : (if t.size = 0 then .ok [] { t with stack := ⟨0, t.size⟩ :: t.stack, kind := none, size := 0 }
      else decodeSliceElems elemdec fuel
        { t with stack := ⟨0, t.size⟩ :: t.stack, kind := none, size := 0 }) = .ok items t')
    (hst : t'.stack = ⟨t.size, t.size⟩ :: t.stack) :
    decodeListSlice elemdec fuel t =
      .ok items { t' with stack := bump t.stack t.size, kind := none, size := 0 } := by
  simp only [decodeListSlice, list_ok t hk he, helems, listEnd_ok t' _ _ hst rfl]

end GoEthereum.Rlp
