import GoEthereum.Data.BigEndian
import GoEthereum.Data.Splice

/-!
Swarm's tree chunker (`swarm/storage/chunker.go`). `Split` cuts a document
into a tree of chunks: leaves hold at most `chunkSize` bytes of content,
branch chunks hold the keys of their children, and every chunk starts with
the little-endian size of the subtree it covers. `LazyChunkReader.ReadAt`
walks the tree back down and copies a range of the document into a buffer.

Both run as goroutines in Go, but the tree they build and the bytes they copy
do not depend on the schedule, so the model runs them in order. The reader
`Split` consumes is the list of the document's bytes. A slice expression is
checked against the slice's length, which is its capacity for every slice
these functions cut; out of range it is the failure `panic`, which crashes
the process from whichever goroutine it happens in.
-/

namespace GoEthereum.Swarm

open GoEthereum.Splice

/-- `Chunk`: the stored bytes and the size of the subtree they cover. -/
structure Chunk where
  SData : List UInt8
  Size : Nat

/-- A `TreeChunker`. `NewChunkerParams` gives 128 branches, and SHA3 keys
of 32 bytes. -/
structure TreeChunker where
  branches : Nat
  hashSize : Nat
  hashFunc : List UInt8 → List UInt8
  two_le_branches : 2 ≤ branches
  hashSize_pos : 0 < hashSize

namespace TreeChunker

variable (c : TreeChunker)

def chunkSize : Nat := c.hashSize * c.branches

/-- `copy(key, h)` into a key slot of `hashSize` bytes. -/
def fitKey (h : List UInt8) : List UInt8 := (h ++ List.replicate c.hashSize 0).take c.hashSize

end TreeChunker

/-- `binary.LittleEndian.PutUint64`. -/
def putUint64 (x : Nat) : List UInt8 := (BigEndian.bytes 8 x).reverse

/-- `xs[lo:hi]`, or `none` where Go panics. -/
def goSlice {α : Type} (xs : List α) (lo hi : Nat) : Option (List α) :=
  if lo ≤ hi ∧ hi ≤ xs.length then some ((xs.drop lo).take (hi - lo)) else none

/-- The loop of `Split` and `ReadAt` that finds the depth of the tree:
`for ; treeSize < size; treeSize *= branches { depth++ }`. It runs at most
`size` times, since `treeSize` starts positive and at least doubles. -/
def depthLoop (c : TreeChunker) (size : Nat) : (fuel treeSize depth : Nat) → Nat × Nat
  | 0, treeSize, depth => (depth, treeSize)
  | fuel + 1, treeSize, depth =>
      if treeSize < size then depthLoop c size fuel (treeSize * c.branches) (depth + 1)
      else (depth, treeSize)

/-- What `split` leaves behind: the key of the subtree, the chunks it sent to
storage, and what is left of the reader. -/
abbrev SplitResult := List UInt8 × List (List UInt8 × Chunk) × List UInt8

/-- `TreeChunker.split`, from its first loop on: while `depth > 0` and the
subtree is smaller than `treeSize`, go one level down; at depth zero read a
leaf, and above it split the data into `branchCnt` children of `treeSize`
bytes, the last one shorter. `none` is a reader that ends too soon. -/
def split (c : TreeChunker) : (depth treeSize size : Nat) → List UInt8 → Option SplitResult
  | 0, _, size, data =>
      if size ≤ data.length then
        let chunkData := putUint64 size ++ data.take size
        let key := c.fitKey (c.hashFunc chunkData)
        some (key, [(key, ⟨chunkData, size⟩)], data.drop size)
      else none
  | depth + 1, treeSize, size, data =>
      if size < treeSize then split c depth (treeSize / c.branches) size data
      else
        let branchCnt := (size + treeSize - 1) / treeSize
        let children := (List.range branchCnt).foldlM (fun (acc : SplitResult) i =>
          let pos := i * treeSize
          -- the last item can have shorter data
          let secSize := if size - pos < treeSize then size - pos else treeSize
          (split c depth (treeSize / c.branches) secSize acc.2.2).map fun r =>
            (acc.1 ++ r.1, acc.2.1 ++ r.2.1, r.2.2)) ([], [], data)
        children.map fun r =>
          let chunk := putUint64 size ++ r.1
          let key := c.fitKey (c.hashFunc chunk)
          (key, r.2.1 ++ [(key, ⟨chunk, size⟩)], r.2.2)

/-- `TreeChunker.Split`: the root key and every chunk sent to storage. -/
def Split (c : TreeChunker) (data : List UInt8) (size : Nat) :
    Option (List UInt8 × List (List UInt8 × Chunk)) :=
  let (depth, treeSize) := depthLoop c size size c.chunkSize 0
  (split c depth (treeSize / c.branches) size data).map fun r => (r.1, r.2.1)

/-- A store holds the chunks `Split` sent when it answers each of their
keys with that chunk. -/
def StoredIn (store : List UInt8 → Option Chunk) (chunks : List (List UInt8 × Chunk)) : Prop :=
  ∀ p ∈ chunks, store p.1 = some p.2

/-- `retrieve`: the chunk the store delivers, `nil` when it delivers none or
an empty one. -/
def retrieve (store : List UInt8 → Option Chunk) (key : List UInt8) : Option Chunk :=
  match store key with
  | some chunk => if chunk.SData.length = 0 then none else some chunk
  | none => none

/-- How a read ends early. -/
inductive ReadFailure where
  | panic
  /-- `"root chunk not found for ..."` -/
  | rootNotFound
  /-- `"chunk ...-... not found"` -/
  | chunkNotFound
  deriving Repr, DecidableEq

/-- `LazyChunkReader.join`, from its first loop on, into the buffer `b` of the
range `[off, eoff)` of the subtree `chunk`. A leaf copies its bytes of the
range; a branch hands each child in the range the window of `b` it covers.
The children run as goroutines: a panic in any of them crashes the process,
and a missing chunk is reported after the others have run. -/
def join (c : TreeChunker) (store : List UInt8 → Option Chunk) :
    (depth treeSize : Nat) → (b : List UInt8) → (off eoff : Nat) → Chunk →
      Except ReadFailure (List UInt8)
  | 0, _, b, off, eoff, chunk =>
      let eoff := if 8 + eoff > chunk.SData.length then chunk.SData.length - 8 else eoff
      match goSlice chunk.SData (8 + off) (8 + eoff) with
      | some src => .ok (copyAt b 0 src).1
      | none => .error .panic
  | depth + 1, treeSize, b, off, eoff, chunk =>
      if chunk.Size < treeSize then join c store depth (treeSize / c.branches) b off eoff chunk
      else
        let start := off / treeSize
        -- `end`
        let stop := (eoff + treeSize - 1) / treeSize
        let children := (List.range (stop - start)).foldlM (m := Except ReadFailure)
          (fun (acc : List UInt8 × Bool) k =>
            let i := start + k
            let roff := i * treeSize
            let soff := if roff < off then off else roff
            let seoff := if roff + treeSize > eoff then eoff else roff + treeSize
            match goSlice chunk.SData (8 + i * c.hashSize) (8 + (i + 1) * c.hashSize) with
            | none => .error .panic
            | some childKey =>
                match retrieve store childKey with
                | none => .ok (acc.1, true)
                | some child =>
                    match goSlice acc.1 (soff - off) (seoff - off) with
                    | none => .error .panic
                    | some window =>
                        (join c store depth (treeSize / c.branches) window (soff - roff)
                          (seoff - roff) child).map fun window' =>
                            ((copyAt acc.1 (soff - off) window').1, acc.2))
          (b, false)
        children.bind fun r => if r.2 then .error .chunkNotFound else .ok r.1

/-- `LazyChunkReader.ReadAt(b, off)` on the reader `Join(key)` returns:
the count it reports, the buffer, and whether it reports `io.EOF`. -/
def ReadAt (c : TreeChunker) (store : List UInt8 → Option Chunk) (key : List UInt8)
    (b : List UInt8) (off : Nat) : Except ReadFailure (Nat × List UInt8 × Bool) :=
  if b.length = 0 then .ok (0, b, false)
  else
    match retrieve store key with
    | none => .error .rootNotFound
    | some root =>
        let size := root.Size
        let (depth, treeSize) := depthLoop c size size c.chunkSize 0
        (join c store depth (treeSize / c.branches) b off (off + b.length) root).map fun b' =>
          (b.length, b', decide (off + b.length ≥ size))

/-! ### Documents of one chunk -/

theorem depthLoop_of_le (c : TreeChunker) {size treeSize : Nat} (fuel depth : Nat)
    (h : size ≤ treeSize) : depthLoop c size fuel treeSize depth = (depth, treeSize) := by
  cases fuel with
  | zero => rfl
  | succ fuel => simp [depthLoop, not_lt.mpr h]

@[simp] theorem length_putUint64 (x : Nat) : (putUint64 x).length = 8 := by
  simp [putUint64]

theorem goSlice_eq {α : Type} {xs : List α} {lo hi : Nat} (hlo : lo ≤ hi) (hhi : hi ≤ xs.length) :
    goSlice xs lo hi = some ((xs.drop lo).take (hi - lo)) := by
  simp [goSlice, hlo, hhi]

/-- A document of at most `chunkSize` bytes is one leaf chunk: its size and
its bytes. -/
theorem split_single_chunk (c : TreeChunker) (data : List UInt8) (hsize : data.length ≤ c.chunkSize) :
    Split c data data.length = some (c.fitKey (c.hashFunc (putUint64 data.length ++ data)),
      [(c.fitKey (c.hashFunc (putUint64 data.length ++ data)),
        ⟨putUint64 data.length ++ data, data.length⟩)]) := by
  simp [Split, depthLoop_of_le c _ _ hsize, split]

/-- Reading past the end of a one-chunk document: `ReadAt` copies the
document's bytes from `off` on to the front of `b`, reports `io.EOF`, and
reports the whole length of `b` as read, more than the `n - off` bytes the
document has from `off` on. -/
theorem readAt_reports_whole_buffer (c : TreeChunker) (data : List UInt8)
    (hsize : data.length ≤ c.chunkSize) (off : Nat) (b : List UInt8) (hoff : off ≤ data.length)
    (hlong : data.length - off < b.length) :
    ∃ key chunks, Split c data data.length = some (key, chunks) ∧
      ∀ store, StoredIn store chunks →
        ReadAt c store key b off = .ok (b.length, data.drop off ++ b.drop (data.length - off), true) := by
  refine ⟨_, _, split_single_chunk c data hsize, fun store hstore => ?_⟩
  have hroot := hstore _ (List.mem_singleton_self _)
  have hretrieve : retrieve store (c.fitKey (c.hashFunc (putUint64 data.length ++ data))) =
      some ⟨putUint64 data.length ++ data, data.length⟩ := by
    simp [retrieve, hroot]
  -- the leaf clamps the end of the range to the end of the document
  have hclamp : (if 8 + (off + b.length) > (putUint64 data.length ++ data).length
      then (putUint64 data.length ++ data).length - 8 else off + b.length) = data.length := by
    simp only [List.length_append, length_putUint64]
    split_ifs <;> omega
  have hsrc : goSlice (putUint64 data.length ++ data) (8 + off) (8 + data.length) =
      some (data.drop off) := by
    rw [goSlice_eq (by omega) (by simp)]
    have hdrop : (putUint64 data.length ++ data).drop (8 + off) = data.drop off := by
      rw [← List.drop_drop, show 8 = (putUint64 data.length).length by simp, List.drop_left]
    rw [hdrop, show 8 + data.length - (8 + off) = (data.drop off).length by simp; omega,
      List.take_length]
  have hcopy : (copyAt b 0 (data.drop off)).1 = data.drop off ++ b.drop (data.length - off) := by
    have hmin : min (data.drop off).length (b.length - 0) = data.length - off := by
      simp only [List.length_drop, Nat.sub_zero]
      omega
    simp only [copyAt, hmin, List.take_zero, List.nil_append, Nat.zero_add,
      List.take_of_length_le (show (data.drop off).length ≤ data.length - off by simp)]
  have hne : b.length ≠ 0 := by omega
  have heof : decide (off + b.length ≥ data.length) = true := decide_eq_true (by omega)
  simp only [ReadAt, hne, if_false, hretrieve, depthLoop_of_le c _ _ hsize, join]
  rw [hclamp, hsrc]
  simp only [hcopy, heof, Except.map]

/-! ### Reading past the last child -/

/-- The chunker of `NewChunkerParams`, with the first 32 bytes of a chunk in
place of its SHA3 hash: the theorems hold for every hash. -/
def defaultChunker : TreeChunker where
  branches := 128
  hashSize := 32
  hashFunc data := data.take 32
  two_le_branches := by decide
  hashSize_pos := by decide

/-- The three-byte document read into a five-byte buffer: `ReadAt` reports
five bytes read, and only three of them are the document's. -/
theorem readAt_reports_whole_buffer_abc :
    ∃ key chunks, Split defaultChunker [1, 2, 3] 3 = some (key, chunks) ∧
      ∀ store, StoredIn store chunks →
        ReadAt defaultChunker store key [0, 0, 0, 0, 0] 0 = .ok (5, [1, 2, 3, 0, 0], true) :=
  readAt_reports_whole_buffer defaultChunker [1, 2, 3] (by decide) 0 [0, 0, 0, 0, 0]
    (by decide) (by decide)

end GoEthereum.Swarm
