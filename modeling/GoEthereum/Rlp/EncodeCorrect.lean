import GoEthereum.Rlp.Encode

/-!
The encoder computes `Value.rlp`. Writing a value appends string data and
closed list headers to the buffer (`Extends`), in a way whose spliced output
is the value's encoding; reading the buffer out with `toBytes`, `toWriter` or
the `encReader` then gives that output. The header arithmetic agrees with
`lengthPrefix` for every payload shorter than `2 ^ 64` bytes, the range of the
`uint64` that `putint` takes.
-/

namespace GoEthereum.Rlp

open GoEthereum.BigEndian GoEthereum.Splice

theorem intsize_eq_width (i : Nat) : intsize i = width i := by
  induction i using Nat.strong_induction_on with
  | h i ih =>
      unfold intsize width
      by_cases hi : i < 256
      · have : i / 256 = 0 := by omega
        simp [hi, this]
      · have : i / 256 ≠ 0 := by omega
        simp only [this, if_false, hi, ih (i / 256) (by omega)]

theorem putint_eq (i : Nat) (hi : i < 2 ^ 64) : putint i = BigEndian.bytes (width i) i := by
  have hw (k : Nat) (hk : 0 < k) (hlo : ¬ i < 2 ^ (8 * (k - 1)) ∨ k = 1)
      (hhi : i < 2 ^ (8 * k)) : width i = k := by
    apply width_eq_of_bounds i k hk
    · intro hk1
      rcases hlo with hlo | rfl
      · rw [show (256 : Nat) = 2 ^ 8 by norm_num, ← pow_mul]
        exact Nat.le_of_not_lt hlo
      · omega
    · rwa [show (256 : Nat) = 2 ^ 8 by norm_num, ← pow_mul]
  unfold putint
  split_ifs with h1 h2 h3 h4 h5 h6 h7
  · rw [hw 1 (by norm_num) (.inr rfl) h1]
  · rw [hw 2 (by norm_num) (.inl h1) h2]
  · rw [hw 3 (by norm_num) (.inl h2) h3]
  · rw [hw 4 (by norm_num) (.inl h3) h4]
  · rw [hw 5 (by norm_num) (.inl h4) h5]
  · rw [hw 6 (by norm_num) (.inl h5) h6]
  · rw [hw 7 (by norm_num) (.inl h6) h7]
  · rw [hw 8 (by norm_num) (.inl h7) hi]

theorem length_putint (i : Nat) (hi : i < 2 ^ 64) : (putint i).length = width i := by
  rw [putint_eq i hi, length_bytes]

theorem puthead_eq (offset : UInt8) (n : Nat) (hn : n < 2 ^ 64) :
    puthead offset (offset + 55) n = lengthPrefix offset n := by
  unfold puthead lengthPrefix
  split
  · rfl
  · rw [length_putint n hn, putint_eq n hn]

theorem encode_eq (head : ListHead) (hsize : head.size < 2 ^ 64) :
    head.encode = lengthPrefix 0xC0 head.size :=
  puthead_eq 0xC0 head.size hsize

theorem length_lengthPrefix_eq_headsize (offset : UInt8) (n : Nat) :
    (lengthPrefix offset n).length = headsize n := by
  rw [length_lengthPrefix, headsize, intsize_eq_width]
  split <;> omega

theorem encodeStringHeader_eq (w : Encbuf) (n : Nat) (hn : n < 2 ^ 64) :
    w.encodeStringHeader n = { w with str := w.str ++ lengthPrefix 0x80 n } := by
  unfold Encbuf.encodeStringHeader
  have h := puthead_eq 0x80 n hn
  unfold puthead at h
  split
  · simp only [lengthPrefix, if_pos ‹n < 56›]
  · rw [← h, if_neg ‹¬ n < 56›]
    rfl

theorem encodeString_eq (w : Encbuf) (b : List UInt8) (hb : b.length < 2 ^ 64) :
    w.encodeString b = { w with str := w.str ++ rlpBytes b } := by
  unfold Encbuf.encodeString rlpBytes
  rw [encodeStringHeader_eq w b.length hb]
  match b with
  | [b0] =>
      by_cases hb0 : b0 ≤ 0x7F
      · have hsingle : isSingleByte [b0] = true := by
          simp only [isSingleByte, decide_eq_true_eq]
          exact UInt8.lt_iff_toNat_lt.mpr (by have := UInt8.le_iff_toNat_le.mp hb0; simpa using
            (show b0.toNat < 128 by simpa using Nat.lt_succ_of_le this))
        simp [hb0, hsingle]
      · have hsingle : isSingleByte [b0] = false := by
          simp only [isSingleByte, decide_eq_false_iff_not]
          intro hlt
          exact hb0 (UInt8.le_iff_toNat_le.mpr (by
            have := UInt8.lt_iff_toNat_lt.mp hlt
            simp at this ⊢
            omega))
        simp [hb0, hsingle]
  | [] => simp [isSingleByte]
  | b0 :: b1 :: bs => simp [isSingleByte]

/-- The pieces an encoder's list headers stand for. -/
def headPieces (heads : List ListHead) : List (Nat × List UInt8) :=
  heads.map fun head => (head.offset, head.encode)

@[simp] theorem headPieces_nil : headPieces [] = [] := rfl

@[simp] theorem headPieces_cons (head : ListHead) (heads : List ListHead) :
    headPieces (head :: heads) = (head.offset, head.encode) :: headPieces heads := rfl

@[simp] theorem headPieces_append (hs ks : List ListHead) :
    headPieces (hs ++ ks) = headPieces hs ++ headPieces ks := by
  simp [headPieces]

theorem toBytesLoop_eq_fill (str : List UInt8) (heads : List ListHead) (out : List UInt8)
    (strpos pos : Nat) :
    Encbuf.toBytesLoop str heads out strpos pos = fill str (headPieces heads) out strpos pos := by
  induction heads generalizing out strpos pos with
  | nil => rfl
  | cons head heads ih =>
      simp only [Encbuf.toBytesLoop, headPieces_cons, fill]
      exact ih _ _ _

/-- `w'` is `w` with string data `s` appended and closed headers `hs` after
its headers, and the appended part, spliced, is `out`. -/
def Extends (w w' : Encbuf) (out : List UInt8) : Prop :=
  ∃ s hs, w' = ⟨w.str ++ s, w.lheads ++ hs, w.lhsize + piecesLength (headPieces hs)⟩ ∧
    Ordered w.str.length (w.str ++ s).length (headPieces hs) ∧
    spliceFrom (w.str ++ s) w.str.length (headPieces hs) = out

theorem Extends.refl (w : Encbuf) : Extends w w [] :=
  ⟨[], [], by simp, by simp [headPieces, Ordered], by simp [spliceFrom]⟩

theorem Extends.str_append (w : Encbuf) (s : List UInt8) :
    Extends w { w with str := w.str ++ s } s :=
  ⟨s, [], by simp, by simp [headPieces, Ordered], by simp [spliceFrom]⟩

theorem Extends.trans {w w₁ w₂ : Encbuf} {out₁ out₂ : List UInt8}
    (h₁ : Extends w w₁ out₁) (h₂ : Extends w₁ w₂ out₂) : Extends w w₂ (out₁ ++ out₂) := by
  obtain ⟨s₁, hs₁, rfl, hord₁, hout₁⟩ := h₁
  obtain ⟨s₂, hs₂, rfl, hord₂, hout₂⟩ := h₂
  refine ⟨s₁ ++ s₂, hs₁ ++ hs₂, ?_, ?_, ?_⟩
  · simp [Nat.add_assoc]
  · have hsecond : Ordered (w.str ++ s₁).length (w.str ++ (s₁ ++ s₂)).length (headPieces hs₂) := by
      simpa [List.append_assoc] using hord₂
    rw [headPieces_append]
    exact hord₁.append hsecond
  · have hsplice := spliceFrom_append (w.str ++ s₁) s₂ w.str.length
      (headPieces hs₁) (headPieces hs₂) (by simpa using hord₁) (by simpa using hord₂)
    simp only [List.append_assoc] at hsplice hout₂ ⊢
    rw [headPieces_append, hsplice, hout₁]
    simpa [List.append_assoc] using congrArg (out₁ ++ ·) hout₂

theorem length_of_extends {w w' : Encbuf} {out : List UInt8} (h : Extends w w' out) :
    out.length = (w'.str.length - w.str.length) + (w'.lhsize - w.lhsize) := by
  obtain ⟨s, hs, rfl, hord, rfl⟩ := h
  rw [length_spliceFrom _ _ _ hord]
  simp

theorem list_eq (w : Encbuf) :
    w.list = (w.lheads.length,
      { w with lheads := w.lheads ++ [{ offset := w.str.length, size := w.lhsize }] }) := rfl

theorem listEnd_eq (w : Encbuf) (lh : Nat) (head : ListHead) (hget : w.lheads[lh]? = some head) :
    w.listEnd lh =
      { w with
        lheads := w.lheads.set lh { head with size := w.size - head.offset - head.size }
        lhsize := w.lhsize + headsize (w.size - head.offset - head.size) } := by
  simp only [Encbuf.listEnd, hget, headsize]
  by_cases hsmall : w.size - head.offset - head.size < 56 <;> simp [hsmall]

/-- Closing the header that `list` opened: the payload written since then
gets its length prefix in front. -/
theorem list_listEnd_extends (w w' : Encbuf) (payload : List UInt8)
    (h : Extends w.list.2 w' payload) (hlen : payload.length < 2 ^ 64) :
    Extends w (w'.listEnd w.list.1) (lengthPrefix 0xC0 payload.length ++ payload) := by
  obtain ⟨s, hs, hw', hord, hout⟩ := h
  simp only [list_eq] at hw' hord hout ⊢
  subst hw'
  have hpayload : payload.length = s.length + piecesLength (headPieces hs) := by
    rw [← hout, length_spliceFrom _ _ _ hord]
    simp
  have hget : (w.lheads ++ [{ offset := w.str.length, size := w.lhsize }] ++ hs)[w.lheads.length]? =
      some { offset := w.str.length, size := w.lhsize } := by
    simp
  have hsize : (Encbuf.mk (w.str ++ s) (w.lheads ++ [ListHead.mk w.str.length w.lhsize] ++ hs)
      (w.lhsize + piecesLength (headPieces hs))).size - w.str.length - w.lhsize =
      payload.length := by
    simp only [Encbuf.size, List.length_append]
    omega
  have hset : (w.lheads ++ [ListHead.mk w.str.length w.lhsize] ++ hs).set w.lheads.length
      (ListHead.mk w.str.length payload.length) =
      w.lheads ++ ListHead.mk w.str.length payload.length :: hs := by
    simp
  have hhead : (ListHead.mk w.str.length payload.length).encode = lengthPrefix 0xC0 payload.length :=
    encode_eq _ hlen
  rw [listEnd_eq _ _ _ hget]
  dsimp only
  rw [hsize, hset]
  refine ⟨s, ⟨w.str.length, payload.length⟩ :: hs, ?_, ⟨le_refl _, hord⟩, ?_⟩
  · simp only [headPieces_cons, piecesLength_cons, hhead, length_lengthPrefix_eq_headsize]
    congr 1
    omega
  · simp only [headPieces_cons, spliceFrom, Nat.sub_self, List.take_zero, List.nil_append, hhead,
      hout]

theorem writeValue_list (items : List Value) (w : Encbuf) :
    writeValue (.list items) w = (writeItems items w.list.2).listEnd w.list.1 := by
  simp [writeValue]

mutual
theorem writeValue_extends : ∀ (v : Value) (w : Encbuf), v.fits = true →
    Extends w (writeValue v w) v.rlp
  | .bytes b, w, hv => by
      simp only [fits_bytes, decide_eq_true_eq] at hv
      rw [rlp_bytes, writeValue, encodeString_eq w b hv]
      exact Extends.str_append w _
  | .list items, w, hv => by
      simp only [fits_list, Bool.and_eq_true, decide_eq_true_eq] at hv
      rw [rlp_list, writeValue_list]
      exact list_listEnd_extends w _ _ (writeItems_extends items _ hv.2) hv.1

theorem writeItems_extends : ∀ (items : List Value) (w : Encbuf),
    Value.fitsList items = true → Extends w (writeItems items w) (Value.rlpList items)
  | [], w, _ => by simpa [writeItems] using Extends.refl w
  | v :: vs, w, h => by
      simp only [fitsList_cons, Bool.and_eq_true] at h
      rw [rlpList_cons]
      exact (writeValue_extends v w h.1).trans (writeItems_extends vs _ h.2)
end

theorem toBytes_of_extends {w : Encbuf} {out : List UInt8} (h : Extends Encbuf.reset w out) :
    w.toBytes = out := by
  obtain ⟨s, hs, rfl, hord, hout⟩ := h
  simp only [Encbuf.reset, List.nil_append, List.length_nil, Nat.zero_add] at hord hout ⊢
  have hsize : Encbuf.size ⟨s, hs, piecesLength (headPieces hs)⟩ =
      (spliceFrom s 0 (headPieces hs)).length := by
    rw [length_spliceFrom _ _ _ hord]
    simp [Encbuf.size]
  rw [Encbuf.toBytes, toBytesLoop_eq_fill, hsize, ← hout]
  simpa using fill_eq_spliceFrom s 0 (headPieces hs) [] 0 hord

/-- `EncodeToBytes` produces the RLP encoding of every value whose length
fields fit a `uint64`. -/
theorem encodeToBytes_eq_rlp (v : Value) (hv : v.fits = true) :
    encodeToBytes v = v.rlp :=
  toBytes_of_extends (writeValue_extends v Encbuf.reset hv)

end GoEthereum.Rlp
