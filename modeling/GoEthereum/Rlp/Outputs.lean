import GoEthereum.Rlp.EncodeCorrect

/-!
The three ways of emitting an `encbuf` agree. `toWriter` writes the same
spliced output as `toBytes`. The `encReader` is described by `rest`, the
bytes it has left: the pending piece, then the string data from `strpos`
with the headers from `lhpos` on spliced in. One `Read` into a buffer of `k`
bytes returns the first `k` bytes left and leaves the others
(`read_data`, `read_rest`), and reports `io.EOF` exactly when it drains the
reader. So reads with any buffer sizes return a prefix of the encoding, and
reading to `io.EOF` returns all of it.
-/

namespace GoEthereum.Rlp

open GoEthereum.Splice

theorem toWriterLoop_eq (str : List UInt8) (heads : List ListHead) (strpos : Nat)
    (out : List UInt8) (hord : Ordered strpos str.length (headPieces heads)) :
    Encbuf.toWriterLoop str heads strpos out = out ++ spliceFrom str strpos (headPieces heads) := by
  induction heads generalizing strpos out with
  | nil =>
      have hle : strpos ≤ str.length := hord
      unfold Encbuf.toWriterLoop
      split
      · simp [spliceFrom]
      · simp [spliceFrom, List.drop_eq_nil_of_le (by omega : str.length ≤ strpos)]
  | cons head heads ih =>
      have hpos : strpos ≤ head.offset := hord.1
      have hoff : head.offset ≤ str.length := hord.2.le
      have hseg : ((str.drop strpos).take (head.offset - strpos)).length = head.offset - strpos := by
        simp only [List.length_take, List.length_drop]
        omega
      unfold Encbuf.toWriterLoop
      split
      · dsimp only
        rw [hseg, show strpos + (head.offset - strpos) = head.offset by omega, ih _ _ hord.2]
        simp [spliceFrom]
      · have hsame : head.offset = strpos := by omega
        dsimp only
        rw [ih _ _ (by rw [← hsame]; exact hord.2)]
        simp [spliceFrom, hsame]

theorem toWriter_of_extends {w : Encbuf} {out : List UInt8} (h : Extends Encbuf.reset w out)
    (prefix_ : List UInt8) : w.toWriter prefix_ = prefix_ ++ out := by
  obtain ⟨s, hs, rfl, hord, hout⟩ := h
  simp only [Encbuf.reset, List.nil_append, List.length_nil] at hord hout
  simp only [Encbuf.toWriter, Encbuf.reset, List.nil_append]
  rw [toWriterLoop_eq _ _ _ _ hord, hout]

theorem size_of_extends {w : Encbuf} {out : List UInt8} (h : Extends Encbuf.reset w out) :
    w.size = out.length := by
  have hlen := length_of_extends h
  obtain ⟨s, hs, rfl, -, -⟩ := h
  simp only [Encbuf.reset, List.length_nil, Nat.sub_zero] at hlen
  simp [Encbuf.size, Encbuf.reset, hlen]

namespace EncReader

/-- The bytes the reader has left. -/
def rest (r : EncReader) : List UInt8 :=
  match r.buf with
  | none => []
  | some buf => r.piece ++ spliceFrom buf.str r.strpos (headPieces (buf.lheads.drop r.lhpos))

/-- The headers left are in order and every header is at least one byte, so
`next` never hands out an empty piece. -/
def Inv (r : EncReader) : Prop :=
  match r.buf with
  | none => True
  | some buf => Ordered r.strpos buf.str.length (headPieces (buf.lheads.drop r.lhpos))

theorem encode_ne_nil (head : ListHead) : head.encode ≠ [] := by
  unfold ListHead.encode puthead
  split <;> simp

theorem rest_piece (r : EncReader) (buf : Encbuf) (hbuf : r.buf = some buf) (p : List UInt8) :
    { r with piece := p }.rest = p ++ { r with piece := [] }.rest := by
  simp [rest, hbuf]

/-- What one call of `next` can do: report the end, when nothing is left, or
hand out a nonempty piece from the front of what is left. -/
theorem next_cases (r : EncReader) (hinv : r.Inv) :
    (r.next = (none, r) ∧ r.rest = []) ∨
    ∃ p r', r.next = (some p, r') ∧ p ≠ [] ∧ r'.buf = r.buf ∧
      r.rest = p ++ { r' with piece := [] }.rest ∧ { r' with piece := [] }.Inv := by
  match hbuf : r.buf with
  | none => exact .inl ⟨by simp [next, hbuf], by simp [rest, hbuf]⟩
  | some buf =>
      have hord : Ordered r.strpos buf.str.length (headPieces (buf.lheads.drop r.lhpos)) := by
        simpa [Inv, hbuf] using hinv
      by_cases hpiece : r.piece ≠ []
      · refine .inr ⟨r.piece, r, by simp [next, hbuf, hpiece], hpiece, hbuf, ?_, ?_⟩
        · exact rest_piece r buf hbuf r.piece
        · simpa [Inv, hbuf] using hinv
      · have hnil : r.piece = [] := by simpa using hpiece
        match hhead : buf.lheads[r.lhpos]? with
        | some head =>
            have hdrop : buf.lheads.drop r.lhpos = head :: buf.lheads.drop (r.lhpos + 1) := by
              obtain ⟨hlt, hget⟩ := List.getElem?_eq_some_iff.mp hhead
              rw [List.drop_eq_getElem_cons hlt, hget]
            rw [hdrop] at hord
            have hpos : r.strpos ≤ head.offset := hord.1
            have hoff : head.offset ≤ buf.str.length := hord.2.le
            by_cases hbefore : head.offset - r.strpos > 0
            · refine .inr ⟨(buf.str.drop r.strpos).take (head.offset - r.strpos),
                { r with strpos := r.strpos + (head.offset - r.strpos) },
                by simp [next, hbuf, hnil, hhead, hbefore], ?_, hbuf, ?_, ?_⟩
              · simp only [ne_eq, List.take_eq_nil_iff, List.drop_eq_nil_iff]
                omega
              · simp only [rest, hbuf, hnil, hdrop, headPieces_cons, spliceFrom, List.nil_append]
                rw [show r.strpos + (head.offset - r.strpos) = head.offset by omega]
                simp
              · simp only [Inv, hbuf, hdrop, headPieces_cons]
                rw [show r.strpos + (head.offset - r.strpos) = head.offset by omega]
                exact ⟨le_refl _, hord.2⟩
            · have hsame : head.offset = r.strpos := by omega
              refine .inr ⟨head.encode, { r with lhpos := r.lhpos + 1 },
                by simp [next, hbuf, hnil, hhead, hbefore], encode_ne_nil head, hbuf, ?_, ?_⟩
              · simp [rest, hbuf, hnil, hdrop, spliceFrom, hsame]
              · have htail := hord.2
                rw [hsame] at htail
                simp only [Inv, hbuf]
                exact htail
        | none =>
            have hdrop : buf.lheads.drop r.lhpos = [] := by
              simpa using hhead
            rw [hdrop] at hord
            by_cases htail : r.strpos < buf.str.length
            · refine .inr ⟨buf.str.drop r.strpos, { r with strpos := buf.str.length },
                by simp [next, hbuf, hnil, hhead, htail], ?_, hbuf, ?_, ?_⟩
              · simpa using htail
              · simp [rest, hbuf, hnil, hdrop, spliceFrom]
              · simp [Inv, hbuf, hdrop, Ordered]
            · exact .inl ⟨by simp [next, hbuf, hnil, hhead, htail],
                by simp [rest, hbuf, hnil, hdrop, spliceFrom,
                  List.drop_eq_nil_of_le (show buf.str.length ≤ r.strpos by omega)]⟩

theorem inv_piece (r : EncReader) (p : List UInt8) (hinv : { r with piece := [] }.Inv) :
    { r with piece := p }.Inv := by
  simpa [Inv] using hinv

theorem readLoop_next_some (k fuel : Nat) (got : List UInt8) (r r' : EncReader)
    (p : List UInt8) (hnext : r.next = (some p, r')) :
    r.readLoop k (fuel + 1) got =
      if min (k - got.length) p.length < p.length then
        ((got ++ p.take (min (k - got.length) p.length), false),
          { r' with piece := p.drop (min (k - got.length) p.length) })
      else { r' with piece := [] }.readLoop k fuel (got ++ p.take (min (k - got.length) p.length)) := by
  simp only [readLoop, hnext]

/-- The loop of `Read` with `got` bytes already in the buffer, and enough
rounds left, copies the first bytes left up to the buffer's end. -/
theorem readLoop_spec (k : Nat) : ∀ (fuel : Nat) (got : List UInt8) (r : EncReader),
    r.Inv → got.length ≤ k → k - got.length < fuel →
    ∃ r', r.readLoop k fuel got =
        ((got ++ r.rest.take (k - got.length), decide (r.rest.length ≤ k - got.length)), r') ∧
      r'.Inv ∧ r'.rest = r.rest.drop (k - got.length)
  | 0, _, _, _, _, hfuel => absurd hfuel (Nat.not_lt_zero _)
  | fuel + 1, got, r, hinv, hgot, hfuel => by
      rcases next_cases r hinv with ⟨hnext, hrest⟩ | ⟨p, r', hnext, hp, hbuf, hrest, hinv'⟩
      · refine ⟨{ r with buf := none, piece := [] }, ?_, by simp [Inv], ?_⟩
        · simp [readLoop, hnext, hrest]
        · rw [hrest]
          simp [rest]
      · obtain ⟨buf, hsome⟩ : ∃ buf, r'.buf = some buf := by
          match h : r.buf with
          | some buf => exact ⟨buf, hbuf.trans h⟩
          | none =>
              simp [rest, h] at hrest
              exact absurd hrest.1 hp
        rw [readLoop_next_some k fuel got r r' p hnext, hrest]
        by_cases hfit : p.length ≤ k - got.length
        · -- the whole piece fits: the loop goes on with the rest
          have hmin : min (k - got.length) p.length = p.length := by omega
          have hpos : 0 < p.length := List.length_pos_iff.mpr hp
          obtain ⟨r'', hloop, hinv'', hrest''⟩ :=
            readLoop_spec k fuel (got ++ p) { r' with piece := [] } hinv'
              (by simp only [List.length_append]; omega) (by simp only [List.length_append]; omega)
          have hsub : k - (got ++ p).length = k - got.length - p.length := by
            simp only [List.length_append]
            omega
          refine ⟨r'', ?_, hinv'', ?_⟩
          · rw [if_neg (by omega), hmin, List.take_length, hloop, hsub, List.take_append,
              List.take_of_length_le hfit]
            simp only [List.append_assoc, List.length_append, Prod.mk.injEq, and_true, true_and,
              decide_eq_decide]
            omega
          · rw [hrest'', hsub, List.drop_append, List.drop_eq_nil_of_le hfit, List.nil_append]
        · -- the piece does not fit: the rest of it is kept for the next read
          have hmin : min (k - got.length) p.length = k - got.length := by omega
          refine ⟨{ r' with piece := p.drop (k - got.length) }, ?_, inv_piece r' _ hinv', ?_⟩
          · rw [if_pos (by omega), hmin, List.take_append_of_le_length (by omega)]
            simp only [List.length_append, Prod.mk.injEq, and_true, true_and, Bool.false_eq,
              decide_eq_false_iff_not, not_le]
            omega
          · rw [rest_piece r' buf hsome, List.drop_append_of_le_length (by omega)]

/-- One `Read` into a buffer of `k` bytes returns the first `k` bytes left,
reports `io.EOF` when that drains the reader, and leaves the others. -/
theorem read_spec (k : Nat) (r : EncReader) (hinv : r.Inv) :
    ∃ r', r.read k = ((r.rest.take k, decide (r.rest.length ≤ k)), r') ∧
      r'.Inv ∧ r'.rest = r.rest.drop k := by
  simpa [read] using readLoop_spec k (k + 1) [] r hinv (by simp) (by simp)

/-- Reads with the buffer sizes `ks` in turn, as a caller reading the
encoding out does: the bytes read, and whether the last read returned
`io.EOF`. -/
def readSeq : List Nat → EncReader → List UInt8 × Bool
  | [], _ => ([], false)
  | [k], r => (r.read k).1
  | k :: k' :: ks, r =>
      let ((got, _), r') := r.read k
      let (more, eof) := readSeq (k' :: ks) r'
      (got ++ more, eof)

theorem readSeq_spec : ∀ (ks : List Nat) (r : EncReader), r.Inv →
    readSeq ks r = (r.rest.take ks.sum, decide (ks ≠ [] ∧ r.rest.length ≤ ks.sum))
  | [], r, _ => by simp [readSeq]
  | [k], r, hinv => by
      obtain ⟨r', hread, -, -⟩ := read_spec k r hinv
      simp [readSeq, hread]
  | k :: k' :: ks, r, hinv => by
      obtain ⟨r', hread, hinv', hrest'⟩ := read_spec k r hinv
      have ih := readSeq_spec (k' :: ks) r' hinv'
      rw [readSeq, hread]
      dsimp only
      rw [ih, hrest', List.sum_cons, List.sum_cons, ← List.take_add]
      simp only [List.sum_cons, ne_eq, reduceCtorEq, not_false_eq_true, true_and,
        List.length_drop, Prod.mk.injEq, decide_eq_decide]
      omega

end EncReader

theorem reader_of_extends {w : Encbuf} {out : List UInt8} (h : Extends Encbuf.reset w out) :
    (EncReader.mk (some w) 0 0 []).rest = out ∧ (EncReader.mk (some w) 0 0 []).Inv := by
  obtain ⟨s, hs, rfl, hord, hout⟩ := h
  simp only [Encbuf.reset, List.nil_append, List.length_nil] at hord hout
  exact ⟨by simpa [EncReader.rest, Encbuf.reset] using hout,
    by simpa [EncReader.Inv, Encbuf.reset] using hord⟩

/-- The three ways of emitting a value agree. `Encode` into a writer writes
the bytes `EncodeToBytes` returns; reading the reader of `EncodeToReader`
with any sequence of buffer sizes returns the first bytes of them, as many
as the buffers hold, and reports `io.EOF` on the read that takes the last
byte, so reading to `io.EOF` returns all of them; and the size that
`EncodeToReader` reports is their length. The hypothesis is the domain of
the format: every length field fits the `uint64` that `putint` writes. -/
theorem encode_outputs_agree (v : Value) (hv : v.fits = true) (ks : List Nat) :
    encode [] v = encodeToBytes v ∧
    (encodeToReader v).1 = (encodeToBytes v).length ∧
    EncReader.readSeq ks (encodeToReader v).2 =
      ((encodeToBytes v).take ks.sum, decide (ks ≠ [] ∧ (encodeToBytes v).length ≤ ks.sum)) := by
  have hext := writeValue_extends v Encbuf.reset hv
  have hbytes : encodeToBytes v = v.rlp := toBytes_of_extends hext
  obtain ⟨hrest, hinv⟩ := reader_of_extends hext
  refine ⟨?_, ?_, ?_⟩
  · rw [encode, toWriter_of_extends hext, hbytes, List.nil_append]
  · rw [encodeToReader, hbytes]
    exact size_of_extends hext
  · rw [encodeToReader, EncReader.readSeq_spec ks _ hinv, hrest, hbytes]

theorem encode_outputs_agree_list :
    (Value.list [.bytes [0x63, 0x61, 0x74], .bytes []]).fits = true ∧
      (encode [] (.list [.bytes [0x63, 0x61, 0x74], .bytes []]) =
        encodeToBytes (.list [.bytes [0x63, 0x61, 0x74], .bytes []]) ∧
      (encodeToReader (.list [.bytes [0x63, 0x61, 0x74], .bytes []])).1 =
        (encodeToBytes (.list [.bytes [0x63, 0x61, 0x74], .bytes []])).length ∧
      EncReader.readSeq [2, 3, 1] (encodeToReader (.list [.bytes [0x63, 0x61, 0x74], .bytes []])).2 =
        ((encodeToBytes (.list [.bytes [0x63, 0x61, 0x74], .bytes []])).take [2, 3, 1].sum,
          decide ([2, 3, 1] ≠ [] ∧
            (encodeToBytes (.list [.bytes [0x63, 0x61, 0x74], .bytes []])).length ≤ [2, 3, 1].sum))) :=
  ⟨by decide, encode_outputs_agree _ (by decide) [2, 3, 1]⟩

example : EncReader.readSeq [2, 3, 1] (encodeToReader (.list [.bytes [0x63, 0x61, 0x74], .bytes []])).2 =
    ([0xc5, 0x83, 0x63, 0x61, 0x74, 0x80], true) := by decide


end GoEthereum.Rlp
