import Mathlib.Tactic

/-!
Flat buffers with deferred insertions. An encoder that does not know the
length of a header when it reaches it can write the payload into a flat
buffer and remember, for each header, the buffer offset it belongs at.
`spliceFrom str pos pieces` is the output such an encoder means: the buffer
read from `pos`, with every piece inserted at its offset. `copyAt` is Go's
`copy(dst[pos:], src)` on a preallocated destination, the primitive by which
the output is assembled.

The lemmas say how splicing composes when the buffer and the piece list are
both extended (`spliceFrom_append`), how long the output is, and that
assembling it piece by piece into a zeroed buffer of exactly that length
leaves the spliced output (`fill_eq_spliceFrom`).
-/

namespace GoEthereum.Splice

variable {α : Type*}

/-- Go's `copy(dst[pos:], src)`: copies as many elements as fit and returns
the updated destination and the number copied. -/
def copyAt (dst : List α) (pos : Nat) (src : List α) : List α × Nat :=
  let n := min src.length (dst.length - pos)
  (dst.take pos ++ src.take n ++ dst.drop (pos + n), n)

/-- The buffer `str` read from `pos`, with each piece `(offset, bytes)`
inserted at its offset. -/
def spliceFrom (str : List α) (pos : Nat) : List (Nat × List α) → List α
  | [] => str.drop pos
  | (off, piece) :: rest => (str.drop pos).take (off - pos) ++ piece ++ spliceFrom str off rest

/-- Offsets rise from `pos` and stay within `bound`. -/
def Ordered (pos bound : Nat) : List (Nat × List α) → Prop
  | [] => pos ≤ bound
  | (off, _) :: rest => pos ≤ off ∧ Ordered off bound rest

/-- Total length of the pieces. -/
def piecesLength (pieces : List (Nat × List α)) : Nat :=
  (pieces.map fun p => p.2.length).sum

/-- Assembles the spliced output into `out`: before each piece the buffer
segment up to its offset, then the piece, then the rest of the buffer. -/
def fill (str : List α) : List (Nat × List α) → List α → Nat → Nat → List α
  | [], out, strpos, pos => (copyAt out pos (str.drop strpos)).1
  | (off, piece) :: rest, out, strpos, pos =>
      let (out', n) := copyAt out pos ((str.drop strpos).take (off - strpos))
      fill str rest (copyAt out' (pos + n) piece).1 (strpos + n) (pos + n + piece.length)

@[simp] theorem piecesLength_nil : piecesLength ([] : List (Nat × List α)) = 0 := rfl

@[simp] theorem piecesLength_cons (p : Nat × List α) (ps : List (Nat × List α)) :
    piecesLength (p :: ps) = p.2.length + piecesLength ps := by
  simp [piecesLength]

@[simp] theorem piecesLength_append (ps qs : List (Nat × List α)) :
    piecesLength (ps ++ qs) = piecesLength ps + piecesLength qs := by
  simp [piecesLength]

theorem copyAt_append (pre src rest : List α) (h : src.length ≤ rest.length) :
    copyAt (pre ++ rest) pre.length src = (pre ++ src ++ rest.drop src.length, src.length) := by
  have hn : min src.length ((pre ++ rest).length - pre.length) = src.length := by
    simp only [List.length_append]
    omega
  have hdrop : (pre ++ rest).drop (pre.length + src.length) = rest.drop src.length := by
    rw [← List.drop_drop, List.drop_left]
  simp only [copyAt, hn, hdrop, List.take_left, List.take_length]

/-- Copying never changes the destination's length. -/
theorem length_copyAt (dst : List α) (pos : Nat) (src : List α) :
    (copyAt dst pos src).1.length = dst.length := by
  simp only [copyAt, List.length_append, List.length_take, List.length_drop]
  omega

theorem Ordered.le {pos bound : Nat} {pieces : List (Nat × List α)}
    (h : Ordered pos bound pieces) : pos ≤ bound := by
  induction pieces generalizing pos with
  | nil => exact h
  | cons p ps ih =>
      obtain ⟨off, piece⟩ := p
      exact le_trans h.1 (ih h.2)

theorem Ordered.append {pos mid bound : Nat} {ps qs : List (Nat × List α)}
    (hp : Ordered pos mid ps) (hq : Ordered mid bound qs) : Ordered pos bound (ps ++ qs) := by
  induction ps generalizing pos with
  | nil => exact Ordered.mono_left hp hq
  | cons p ps ih =>
      obtain ⟨off, piece⟩ := p
      exact ⟨hp.1, ih hp.2⟩
where
  Ordered.mono_left {pos mid bound : Nat} {qs : List (Nat × List α)}
      (hle : pos ≤ mid) (hq : Ordered mid bound qs) : Ordered pos bound qs := by
    cases qs with
    | nil => exact le_trans hle hq
    | cons q qs =>
        obtain ⟨off, piece⟩ := q
        exact ⟨le_trans hle hq.1, hq.2⟩

/-- Splicing a longer buffer: pieces inside the old buffer come first, the
pieces placed after its end see only the extension. -/
theorem spliceFrom_append (str more : List α) (pos : Nat) (ps qs : List (Nat × List α))
    (hp : Ordered pos str.length ps) (hq : Ordered str.length (str ++ more).length qs) :
    spliceFrom (str ++ more) pos (ps ++ qs) =
      spliceFrom str pos ps ++ spliceFrom (str ++ more) str.length qs := by
  induction ps generalizing pos with
  | nil =>
      have hpos : pos ≤ str.length := hp
      cases qs with
      | nil => simp [spliceFrom, List.drop_append_of_le_length hpos]
      | cons q qs =>
          obtain ⟨off, piece⟩ := q
          have hoff : str.length ≤ off := hq.1
          have htake : ((str ++ more).drop pos).take (off - pos) =
              str.drop pos ++ more.take (off - str.length) := by
            rw [List.drop_append_of_le_length hpos, List.take_append,
              List.take_of_length_le (by simp; omega)]
            congr 2
            simp only [List.length_drop]
            omega
          simp [spliceFrom, htake, List.append_assoc]
  | cons p ps ih =>
      obtain ⟨off, piece⟩ := p
      have hoff : off ≤ str.length := hp.2.le
      have hpos : pos ≤ off := hp.1
      have htake : ((str ++ more).drop pos).take (off - pos) = (str.drop pos).take (off - pos) := by
        rw [List.drop_append_of_le_length (le_trans hpos hoff),
          List.take_append_of_le_length (by simp only [List.length_drop]; omega)]
      simp only [List.cons_append, spliceFrom, List.append_assoc, htake, ih off hp.2]

theorem length_spliceFrom (str : List α) (pos : Nat) (ps : List (Nat × List α))
    (hp : Ordered pos str.length ps) :
    (spliceFrom str pos ps).length = str.length - pos + piecesLength ps := by
  induction ps generalizing pos with
  | nil => simp [spliceFrom]
  | cons p ps ih =>
      obtain ⟨off, piece⟩ := p
      have hoff : off ≤ str.length := hp.2.le
      have hpos : pos ≤ off := hp.1
      simp only [spliceFrom, List.length_append, List.length_take, List.length_drop,
        ih off hp.2, piecesLength_cons]
      omega

/-- Filling a zeroed buffer of the right length from position `pos` leaves
the spliced output after what is already there. -/
theorem fill_eq_spliceFrom (str : List α) (zero : α) (ps : List (Nat × List α))
    (done : List α) (strpos : Nat) (hp : Ordered strpos str.length ps) :
    fill str ps (done ++ List.replicate (spliceFrom str strpos ps).length zero)
      strpos done.length = done ++ spliceFrom str strpos ps := by
  induction ps generalizing done strpos with
  | nil =>
      simp only [fill, spliceFrom]
      rw [copyAt_append done _ _ (by simp)]
      simp
  | cons p ps ih =>
      obtain ⟨off, piece⟩ := p
      have hpos : strpos ≤ off := hp.1
      have hoff : off ≤ str.length := hp.2.le
      set seg := (str.drop strpos).take (off - strpos) with hseg
      set tail := spliceFrom str off ps with htail
      have hseglen : seg.length = off - strpos := by
        simp only [hseg, List.length_take, List.length_drop]
        omega
      have hzeros : List.replicate (spliceFrom str strpos ((off, piece) :: ps)).length zero =
          List.replicate seg.length zero ++
            (List.replicate piece.length zero ++ List.replicate tail.length zero) := by
        rw [← List.replicate_add, ← List.replicate_add]
        show List.replicate (seg ++ piece ++ tail).length zero = _
        simp only [List.length_append, Nat.add_assoc]
      -- the segment before the piece, then the piece, land on the zeroes in turn
      have hcopy₁ : copyAt (done ++ List.replicate seg.length zero ++
            (List.replicate piece.length zero ++ List.replicate tail.length zero)) done.length seg =
          (done ++ seg ++ (List.replicate piece.length zero ++ List.replicate tail.length zero),
            seg.length) := by
        rw [List.append_assoc, copyAt_append done seg _ (by simp),
          List.drop_left' (by simp)]
      have hcopy₂ : copyAt (done ++ seg ++
            (List.replicate piece.length zero ++ List.replicate tail.length zero))
            (done.length + seg.length) piece =
          (done ++ seg ++ piece ++ List.replicate tail.length zero, piece.length) := by
        rw [show done.length + seg.length = (done ++ seg).length by simp,
          copyAt_append (done ++ seg) piece _ (by simp), List.drop_left' (by simp)]
      have hnext : strpos + seg.length = off := by omega
      have hposnext : done.length + seg.length + piece.length = (done ++ seg ++ piece).length := by
        simp only [List.length_append]
      simp only [fill]
      rw [hzeros, ← List.append_assoc, hcopy₁]
      simp only
      rw [hcopy₂]
      simp only
      rw [hnext, hposnext, htail, ih (done ++ seg ++ piece) off hp.2]
      show _ = done ++ (seg ++ piece ++ tail)
      simp only [List.append_assoc]
      rfl

end GoEthereum.Splice
