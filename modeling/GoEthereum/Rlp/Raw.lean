import GoEthereum.Rlp.Stream
import GoEthereum.Data.BigEndian

/-!
The raw splitting functions of rlp/raw.go, which cut an encoding into its
first value and the rest without decoding it. `readKind` reads the tag of
the first value: its kind, the size of the tag and the size of the content.

A one-byte string tag 0x81 makes `readKind` read `buf[1]` to reject a
non-canonical encoding before it has checked that the input has a second
byte, so a lone 0x81 panics (`readKind_panics_iff`), and with it `Split`,
`SplitString`, `SplitList` and `CountValues`. Every other input gives a
value or an error, and a value that was split off is never empty and never
longer than the input (`readKind_ok_bounds`).
-/

namespace GoEthereum.Rlp

/-- How a call of raw.go ends without a value: one of the package's errors,
or a runtime panic. -/
inductive Fault where
  | error (e : Error)
  | panic (message : String)
  deriving DecidableEq, Repr

def readSize (b : List UInt8) (slen : Nat) : Except Error Nat :=
  if slen > b.length then .error .unexpectedEOF
  else
    let s := BigEndian.value (b.take slen)
    -- b[0] is there: slen is 1 to 8 at every call
    if s < 56 ∨ b.head? = some 0 then .error .canonSize else .ok s

/-- The switch of readKind on the tag byte `b`, followed by `rest`. -/
def tagKind (b : UInt8) (rest : List UInt8) : Except Fault (Kind × Nat × Nat) :=
  if b < 0x80 then .ok (.byte, 0, 1)
  else if b < 0xB8 then
    -- buf[1] is read for a one-byte string, before anything checks that it is there
    if (b - 0x80).toNat = 1 then
      match rest with
      | [] => .error (.panic "index out of range")
      | c :: _ => if c < 128 then .error (.error .canonSize) else .ok (.string, 1, 1)
    else .ok (.string, 1, (b - 0x80).toNat)
  else if b < 0xC0 then
    match readSize rest (b - 0xB7).toNat with
    | .ok s => .ok (.string, (b - 0xB7).toNat + 1, s)
    | .error e => .error (.error e)
  else if b < 0xF8 then .ok (.list, 1, (b - 0xC0).toNat)
  else
    match readSize rest (b - 0xF7).toNat with
    | .ok s => .ok (.list, (b - 0xF7).toNat + 1, s)
    | .error e => .error (.error e)

def readKind (buf : List UInt8) : Except Fault (Kind × Nat × Nat) :=
  match buf with
  | [] => .error (.error .unexpectedEOF)
  | b :: rest =>
    match tagKind b rest with
    | .error e => .error e
    -- the tag fits in buf, so the uint64 subtraction does not wrap
    | .ok (k, tagsize, contentsize) =>
      if contentsize > buf.length - tagsize then .error (.error .valueTooLarge)
      else .ok (k, tagsize, contentsize)

def Split (b : List UInt8) : Except Fault (Kind × List UInt8 × List UInt8) :=
  match readKind b with
  | .error e => .error e
  | .ok (k, ts, cs) => .ok (k, (b.drop ts).take cs, b.drop (ts + cs))

def SplitString (b : List UInt8) : Except Fault (List UInt8 × List UInt8) :=
  match Split b with
  | .error e => .error e
  | .ok (k, content, rest) => if k = .list then .error (.error .expectedString) else .ok (content, rest)

def SplitList (b : List UInt8) : Except Fault (List UInt8 × List UInt8) :=
  match Split b with
  | .error e => .error e
  | .ok (k, content, rest) => if k ≠ .list then .error (.error .expectedList) else .ok (content, rest)

theorem readKind_cons (b : UInt8) (rest : List UInt8) :
    readKind (b :: rest) =
      match tagKind b rest with
      | .error e => .error e
      | .ok (k, tagsize, contentsize) =>
        if contentsize > (b :: rest).length - tagsize then .error (.error .valueTooLarge)
        else .ok (k, tagsize, contentsize) := rfl

/-! ### Sizes -/

/-- A tag that reads a size reads it from within the input. -/
theorem readSize_le {b : List UInt8} {slen s : Nat} (h : readSize b slen = .ok s) :
    slen ≤ b.length := by
  unfold readSize at h
  split_ifs at h with hlen
  omega

/-- What each tag stands for: something, within the input, and a tag byte
at least for every kind but a single byte. -/
theorem tagKind_pos {b : UInt8} {rest : List UInt8} {k : Kind} {ts cs : Nat}
    (h : tagKind b rest = .ok (k, ts, cs)) :
    0 < ts + cs ∧ ts ≤ rest.length + 1 ∧ (k ≠ .byte → 1 ≤ ts) := by
  unfold tagKind at h
  split_ifs at h with h80 hB8 hone hC0 hF8
  · cases h
    simp
  · split at h
    · cases h
    · split_ifs at h
      cases h
      simp
  · cases h
    omega
  · split at h
    · rename_i s hs
      cases h
      have := readSize_le hs
      omega
    · cases h
  · cases h
    omega
  · split at h
    · rename_i s hs
      cases h
      have := readSize_le hs
      omega
    · cases h

/-- A value read off an input is not empty and fits in it. -/
theorem readKind_ok_bounds {buf : List UInt8} {k : Kind} {ts cs : Nat}
    (h : readKind buf = .ok (k, ts, cs)) :
    0 < ts + cs ∧ ts + cs ≤ buf.length ∧ (k ≠ .byte → 1 ≤ ts) := by
  cases buf with
  | nil => cases h
  | cons b rest =>
    rw [readKind_cons] at h
    split at h
    · cases h
    · rename_i k' ts' cs' htag
      split_ifs at h with hfit
      cases h
      obtain ⟨hpos, hts, hbyte⟩ := tagKind_pos htag
      simp only [List.length_cons] at hfit ⊢
      exact ⟨hpos, by omega, hbyte⟩

theorem Split_ok {b : List UInt8} {k : Kind} {content rest : List UInt8}
    (h : Split b = .ok (k, content, rest)) :
    ∃ ts cs, readKind b = .ok (k, ts, cs) ∧ content = (b.drop ts).take cs ∧
      rest = b.drop (ts + cs) := by
  unfold Split at h
  split at h
  · cases h
  · rename_i k' ts cs hread
    cases h
    exact ⟨ts, cs, hread, rfl, rfl⟩

theorem Split_rest_lt {b : List UInt8} {k : Kind} {content rest : List UInt8}
    (h : Split b = .ok (k, content, rest)) : rest.length < b.length := by
  obtain ⟨ts, cs, hread, -, rfl⟩ := Split_ok h
  have := readKind_ok_bounds hread
  simp only [List.length_drop]
  omega

theorem SplitString_rest_lt {b content rest : List UInt8} (h : SplitString b = .ok (content, rest)) :
    rest.length < b.length := by
  unfold SplitString at h
  split at h
  · cases h
  · rename_i k c r hsplit
    split_ifs at h
    cases h
    exact Split_rest_lt hsplit

/-- The content of a list is shorter than its encoding, by its tag. -/
theorem SplitList_content_lt {b content rest : List UInt8} (h : SplitList b = .ok (content, rest)) :
    content.length < b.length := by
  unfold SplitList at h
  split at h
  · cases h
  · rename_i k c r hsplit
    split_ifs at h with hk
    cases h
    obtain ⟨ts, cs, hread, rfl, -⟩ := Split_ok hsplit
    have := readKind_ok_bounds hread
    have hts : 1 ≤ ts := this.2.2 (by rw [not_not.mp hk]; decide)
    simp only [List.length_drop, List.length_take]
    omega

/-- The empty string splits off its one-byte tag. -/
theorem SplitString_empty (rest : List UInt8) : SplitString (0x80 :: rest) = .ok ([], rest) := by
  simp [SplitString, Split, readKind_cons, tagKind]

/-- A byte below 0x80 is a string of its own. -/
theorem SplitString_byte {b : UInt8} (hb : b < 0x80) (rest : List UInt8) :
    SplitString (b :: rest) = .ok ([b], rest) := by
  simp [SplitString, Split, readKind_cons, tagKind, hb]

def CountValues (b : List UInt8) : Except Fault Nat :=
  if b.length > 0 then
    match _hread : readKind b with
    | .error e => .error e
    | .ok (_, tagsize, size) => (· + 1) <$> CountValues (b.drop (tagsize + size))
  else .ok 0
termination_by b.length
decreasing_by
  have := readKind_ok_bounds _hread
  simp only [List.length_drop]
  omega

/-! ### The panic of readKind -/

/-- The switch panics only on the tag 0x81 with nothing after it. -/
theorem tagKind_panics {b : UInt8} {rest : List UInt8} {message : String}
    (h : tagKind b rest = .error (.panic message)) : b = 0x81 ∧ rest = [] := by
  unfold tagKind at h
  split_ifs at h with h80 hB8 hone
  · -- only a one-byte string reads past its tag
    cases rest with
    | nil =>
      have h128 : 128 ≤ b.toNat := by simpa [UInt8.lt_iff_toNat_lt] using h80
      rw [UInt8.toNat_sub_of_le _ _ (by simpa [UInt8.le_iff_toNat_le] using h128)] at hone
      have hb : b.toNat = (0x81 : UInt8).toNat := by
        simp only [UInt8.reduceToNat] at hone ⊢
        omega
      exact ⟨UInt8.toNat_inj.mp hb, rfl⟩
    | cons c rest =>
      simp only at h
      split_ifs at h
      cases h
  · split at h <;> cases h
  · split at h <;> cases h

/-- readKind panics on exactly one input: the tag of a one-byte string with
no byte after it. -/
theorem readKind_panics_iff (buf : List UInt8) :
    (∃ message, readKind buf = .error (.panic message)) ↔ buf = [0x81] := by
  constructor
  · rintro ⟨message, h⟩
    cases buf with
    | nil => cases h
    | cons b rest =>
      rw [readKind_cons] at h
      split at h
      · rename_i e htag
        cases h
        obtain ⟨rfl, rfl⟩ := tagKind_panics htag
        rfl
      · split_ifs at h
        cases h
  · rintro rfl
    exact ⟨"index out of range", rfl⟩

end GoEthereum.Rlp
