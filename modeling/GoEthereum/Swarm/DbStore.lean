import GoEthereum.Swarm.Database
import GoEthereum.Swarm.Chunker
import GoEthereum.Rlp.RoundTrip
import GoEthereum.Data.StateM
import Mathlib

/-!
The persistent chunk store of swarm (`swarm/storage/dbstore.go`). A chunk's
data is stored under a data key `kpData | dataIdx` and its index entry, the
RLP of `{Idx, Access}`, under `kpIndex | Key`. The counters `entryCnt`,
`accessCnt` and `dataIdx` are kept in memory and written with every `Put`,
which is where `NewDbStore` reads them back from. `collectGarbage` reads up
to `gcArraySize` index entries from `gcPos` on, selects a cut among their
access counts with the quickselect of `gcListSelect`, and deletes every
entry at or below it. The `gcItem`s of one collection keep the iterator's
key buffer uncopied, which holds the last key found when the batch is
written (`aliasKeys`).
-/

namespace GoEthereum.Swarm

/-- `*Chunk` as the store reads and fills it: the chunker's `Chunk` and its
`Key`. `Size` is the `int64` of the first eight bytes, read as the `uint64`
it is made from. -/
structure DbChunk extends Chunk where
  Key : List UInt8

def gcArraySize : Nat := 10000

def gcArrayFreeRatio : ℚ := 1 / 10

def kpIndex : UInt8 := 0

def kpData : UInt8 := 1

def keyAccessCnt : List UInt8 := [2]

def keyEntryCnt : List UInt8 := [3]

def keyDataIdx : List UInt8 := [4]

def keyGCPos : List UInt8 := [5]

structure GcItem where
  idx : Nat
  value : Nat
  idxKey : List UInt8
  deriving DecidableEq, Repr

structure DpaDBIndex where
  Idx : Nat
  Access : Nat
  deriving DecidableEq, Repr

/-- How a call of the store fails instead of returning. -/
inductive DbFault where
  /-- a runtime panic, with its message -/
  | panic (message : String)
  /-- a loop or recursion that did not end within the fuel -/
  | outOfFuel
  deriving DecidableEq, Repr

/-- The errors `Get` returns. -/
inductive StoreError where
  /-- the error of reading the chunk's data -/
  | db (err : DbError)
  /-- `notFound`, "not found" -/
  | notFound
  /-- `fmt.Errorf("invalid chunk. hash=%x, key=%v", hash, key[:])` -/
  | invalidChunk (hash key : List UInt8)
  deriving DecidableEq, Repr

/-- `DbStore`; `gcPos` is `none` where the slice is nil. -/
structure DbStore where
  db : LDBDatabase
  entryCnt : Nat
  accessCnt : Nat
  dataIdx : Nat
  capacity : Nat
  gcPos : Option (List UInt8)
  gcStartPos : List UInt8
  gcArray : List (Option GcItem)
  hashfunc : List UInt8 → List UInt8

/-- `data, _ := s.db.Get(key)`: the value, nil on an error. -/
def getOrNil (db : LDBDatabase) (key : List UInt8) : List UInt8 :=
  match db.Get key with
  | .ok data => data
  | .error _ => []

def BytesToU64 (data : List UInt8) : Nat :=
  if data.length < 8 then 0 else BigEndian.value (data.take 8).reverse

def U64ToBytes (val : Nat) : List UInt8 := putUint64 val

def getIndexGCValue (index : DpaDBIndex) : Nat := index.Access

def getIndexKey (hash : List UInt8) : List UInt8 := kpIndex :: hash

def getDataKey (idx : Nat) : List UInt8 := kpData :: BigEndian.bytes 8 idx

/-- `rlp.EncodeToBytes` of the struct: a list of its two `uint64` fields. -/
def encodeIndex (index : DpaDBIndex) : List UInt8 :=
  let (lh, w) := Rlp.Encbuf.reset.list
  ((Rlp.writeUint index.Access (Rlp.writeUint index.Idx w)).listEnd lh).toBytes

def encodeData (chunk : DbChunk) : List UInt8 := chunk.SData

/-- `dec.Decode(index)` with its error dropped: the struct decoder sets the
fields it has read before it fails. -/
def decodeIndex (data : List UInt8) (index : DpaDBIndex) : DpaDBIndex :=
  match Rlp.Stream.list (Rlp.Stream.newStream data 0) with
  | .error _ _ => index
  | .ok _ s =>
    match Rlp.Stream.uint 64 s with
    | .error _ _ => index
    | .ok idx s =>
      match Rlp.Stream.uint 64 s with
      | .error _ _ => { index with Idx := idx }
      | .ok access _ => { Idx := idx, Access := access }

/-- `data[0:8]` panics on data shorter than eight bytes. -/
def decodeData (data : List UInt8) (chunk : DbChunk) : Except DbFault DbChunk :=
  if data.length < 8 then .error (.panic "slice bounds out of range")
  else .ok { chunk with SData := data, Size := BigEndian.value (data.take 8).reverse }

/-! ## The quickselect over `gcArray` -/

/-- `list[i]`, with the index check of the slice. -/
def sliceGet {α : Type} (list : List α) (i : Int) : Except DbFault α :=
  match (if 0 ≤ i then list[i.toNat]? else none) with
  | some x => .ok x
  | none => .error (.panic "index out of range")

/-- `list[i] = x`, with the index check of the slice. -/
def sliceSet {α : Type} (list : List α) (i : Nat) (x : α) : Except DbFault (List α) :=
  if i < list.length then .ok (list.set i x) else .error (.panic "index out of range")

/-- `dd := list[i]; list[i] = list[j]; list[j] = dd`. -/
def sliceSwap {α : Type} (list : List α) (i j : Int) : Except DbFault (List α) := do
  let a ← sliceGet list i
  let b ← sliceGet list j
  pure ((list.set i.toNat b).set j.toNat a)

/-- A field read through an item pointer. -/
def deref : Option GcItem → Except DbFault GcItem
  | some item => .ok item
  | none => .error (.panic "invalid memory address or nil pointer dereference")

/-- The loop of `gcListPartition` from `i` to `right`, moving the items below
the pivot value in front of `storeIndex`; `steps` is `right - i`. -/
def partitionLoop (pivotValue : Nat) (right : Int) :
    Nat → List (Option GcItem) → Int → Int → Except DbFault (List (Option GcItem) × Int)
  | 0, list, _, storeIndex => .ok (list, storeIndex)
  | steps + 1, list, i, storeIndex =>
    if i < right then do
      let item ← sliceGet list i >>= deref
      if item.value < pivotValue then
        let list ← sliceSwap list storeIndex i
        partitionLoop pivotValue right steps list (i + 1) (storeIndex + 1)
      else partitionLoop pivotValue right steps list (i + 1) storeIndex
    else .ok (list, storeIndex)

def gcListPartition (list : List (Option GcItem)) (left right pivotIndex : Int) :
    Except DbFault (List (Option GcItem) × Int) := do
  let pivotValue := (← sliceGet list pivotIndex >>= deref).value
  let list ← sliceSwap list pivotIndex right
  let (list, storeIndex) ← partitionLoop pivotValue right (right - left).toNat list left left
  let list ← sliceSwap list storeIndex right
  pure (list, storeIndex)

/-- `gcListSelect`, with the slice it permutes in place; Go's `/` truncates. -/
def gcListSelect : Nat → List (Option GcItem) → Int → Int → Int →
    Except DbFault (List (Option GcItem) × Int)
  | 0, _, _, _, _ => .error .outOfFuel
  | fuel + 1, list, left, right, n =>
    if left = right then .ok (list, left)
    else do
      let (list, pivotIndex) ← gcListPartition list left right ((left + right).tdiv 2)
      if n = pivotIndex then pure (list, n)
      else if n < pivotIndex then gcListSelect fuel list left (pivotIndex - 1) n
      else gcListSelect fuel list (pivotIndex + 1) right n

/-! ## Garbage collection -/

/-- `(s.gcPos == nil) || (s.gcPos[0] != kpIndex)`. -/
def offIndex : Option (List UInt8) → Except DbFault Bool
  | none => .ok true
  | some [] => .error (.panic "index out of range")
  | some (b :: _) => .ok (b != kpIndex)

/-- The position after a step of the iterator: its key, nil when done. -/
def posOf (it : Iterator) : Option (List UInt8) := if it.Valid then some it.Key else none

/-- The loop of `collectGarbage` that reads index entries into `gcArray`;
`free` is `gcArraySize - gcnt`. It returns `gcnt`, `gcPos` and the
iterator. -/
def collectLoop (entryCnt : Nat) (gcStartPos : List UInt8) :
    Nat → Nat → Iterator → Option (List UInt8) → List (Option GcItem) →
      Except DbFault (Nat × Option (List UInt8) × Iterator × List (Option GcItem))
  | 0, gcnt, it, gcPos, gcArray => .ok (gcnt, gcPos, it, gcArray)
  | free + 1, gcnt, it, gcPos, gcArray =>
    if gcnt < entryCnt then do
      let off ← offIndex gcPos
      let it := if off then it.Seek gcStartPos else it
      let gcPos := if off then posOf it else gcPos
      if (← offIndex gcPos) then pure (gcnt, gcPos, it, gcArray)
      else
        let index := decodeIndex it.Value ⟨0, 0⟩
        let gci : GcItem := ⟨index.Idx, getIndexGCValue index, gcPos.getD []⟩
        let gcArray ← sliceSet gcArray gcnt (some gci)
        let it := it.Next
        collectLoop entryCnt gcStartPos free (gcnt + 1) it (posOf it) gcArray
    else pure (gcnt, gcPos, it, gcArray)

/-- The `idxKey` of the items of one collection, in slots `0` to `gcnt - 1`,
is the iterator's key buffer, which holds `key` once the loop is done. -/
def aliasKeys (key : List UInt8) (gcnt : Nat) (gcArray : List (Option GcItem)) :
    List (Option GcItem) :=
  gcArray.mapIdx fun k item => if k < gcnt then item.map ({ · with idxKey := key }) else item

/-- The deletion loop of `collectGarbage`, from slot `i` on for `left` more
slots. -/
def sweepLoop (cutval : Nat) (gcArray : List (Option GcItem)) :
    Nat → Nat → LDBDatabase → Nat → Except DbFault (LDBDatabase × Nat)
  | 0, _, db, entryCnt => .ok (db, entryCnt)
  | left + 1, i, db, entryCnt => do
    let gci ← sliceGet gcArray i >>= deref
    if gci.value ≤ cutval then
      let entryCnt := entryCnt - 1
      let db := db.Write [.delete gci.idxKey, .delete (getDataKey gci.idx),
        .put keyEntryCnt (U64ToBytes entryCnt)]
      sweepLoop cutval gcArray left (i + 1) db entryCnt
    else sweepLoop cutval gcArray left (i + 1) db entryCnt

/-- `int(float32(gcnt)*ratio)`, for the positive ratios the callers pass. -/
def cutIndex (gcnt : Nat) (ratio : ℚ) : Int := ⌊(gcnt : ℚ) * ratio⌋

def DbStore.collectGarbage (s : DbStore) (fuel : Nat) (ratio : ℚ) : Except DbFault DbStore := do
  let it := s.db.NewIterator.Seek (s.gcPos.getD [])
  let (gcnt, gcPos, it, gcArray) ←
    collectLoop s.entryCnt s.gcStartPos gcArraySize 0 it (posOf it) s.gcArray
  let gcArray := aliasKeys it.lastKey gcnt gcArray
  let (gcArray, cutidx) ← gcListSelect fuel gcArray 0 (gcnt - 1) (cutIndex gcnt ratio)
  let cutval := (← sliceGet gcArray cutidx >>= deref).value
  let (db, entryCnt) ← sweepLoop cutval gcArray gcnt 0 s.db s.entryCnt
  pure { s with
    db := db.Put keyGCPos (gcPos.getD []), entryCnt := entryCnt, gcPos := gcPos,
    gcArray := gcArray }

/-! ## Reads and writes -/

/-- `tryAccessIdx`: whether the index entry exists, the index read into
`index` with its access count renewed, and the store. -/
def DbStore.tryAccessIdx (s : DbStore) (ikey : List UInt8) (index : DpaDBIndex) :
    Bool × DpaDBIndex × DbStore :=
  match s.db.Get ikey with
  | .error _ => (false, index, s)
  | .ok idata =>
    let index := decodeIndex idata index
    let batch : List BatchOp := [.put keyAccessCnt (U64ToBytes s.accessCnt)]
    let accessCnt := s.accessCnt + 1
    let index := { index with Access := accessCnt }
    let batch := batch ++ [.put ikey (encodeIndex index)]
    (true, index, { s with db := s.db.Write batch, accessCnt := accessCnt })

def DbStore.Put (s : DbStore) (fuel : Nat) (chunk : DbChunk) : Except DbFault DbStore :=
  let ikey := getIndexKey chunk.Key
  let (found, index, s) := s.tryAccessIdx ikey ⟨0, 0⟩
  if found then .ok s
  else do
    let data := encodeData chunk
    let s ← if s.entryCnt ≥ s.capacity then s.collectGarbage fuel gcArrayFreeRatio else pure s
    let index := { index with Idx := s.dataIdx, Access := s.accessCnt }
    let batch : List BatchOp := [.put (getDataKey s.dataIdx) data, .put ikey (encodeIndex index),
      .put keyEntryCnt (U64ToBytes s.entryCnt)]
    let entryCnt := s.entryCnt + 1
    let batch := batch ++ [.put keyDataIdx (U64ToBytes s.dataIdx)]
    let dataIdx := s.dataIdx + 1
    let batch := batch ++ [.put keyAccessCnt (U64ToBytes s.accessCnt)]
    let accessCnt := s.accessCnt + 1
    pure { s with
      db := s.db.Write batch, entryCnt := entryCnt, dataIdx := dataIdx, accessCnt := accessCnt }

/-- `Get`: the chunk or the error it returns, and the store. -/
def DbStore.Get (s : DbStore) (key : List UInt8) :
    Except DbFault (Except StoreError DbChunk × DbStore) :=
  let (found, index, s) := s.tryAccessIdx (getIndexKey key) ⟨0, 0⟩
  if found then
    match s.db.Get (getDataKey index.Idx) with
    | .error err => .ok (.error (.db err), s)
    | .ok data =>
      let hash := s.hashfunc data
      if hash ≠ key then
        .ok (.error (.invalidChunk hash key), { s with db := s.db.Delete (getDataKey index.Idx) })
      else
        (decodeData data { Key := key, SData := [], Size := 0 }).map fun chunk => (.ok chunk, s)
  else .ok (.error .notFound, s)

/-- The loop `for s.entryCnt > c { s.collectGarbage(ratio) }`, for at most
`fuel` rounds. -/
def setCapacityLoop (c : Nat) (ratio : ℚ) (gcFuel : Nat) : Nat → DbStore → Except DbFault DbStore
  | 0, _ => .error .outOfFuel
  | fuel + 1, s =>
    if s.entryCnt > c then s.collectGarbage gcFuel ratio >>= setCapacityLoop c ratio gcFuel fuel
    else .ok s

def DbStore.setCapacity (s : DbStore) (fuel c : Nat) : Except DbFault DbStore :=
  let s := { s with capacity := c }
  if s.entryCnt > c then
    let ratio : ℚ := 101 / 100 - (c : ℚ) / s.entryCnt
    let ratio := if ratio < gcArrayFreeRatio then gcArrayFreeRatio else ratio
    let ratio := if ratio > 1 then 1 else ratio
    setCapacityLoop c ratio fuel fuel s
  else .ok s

/-- `NewDbStore` over the database the path holds. -/
def NewDbStore (db : LDBDatabase) (hash : List UInt8 → List UInt8) (capacity fuel : Nat) :
    Except DbFault DbStore := do
  let s : DbStore := {
    db := db, entryCnt := 0, accessCnt := 0, dataIdx := 0, capacity := 0, gcPos := none,
    gcStartPos := [], gcArray := [], hashfunc := hash }
  let s ← s.setCapacity fuel capacity
  let s := { s with gcStartPos := [kpIndex], gcArray := List.replicate gcArraySize none }
  let s := { s with entryCnt := BytesToU64 (getOrNil s.db keyEntryCnt) }
  let s := { s with accessCnt := BytesToU64 (getOrNil s.db keyAccessCnt) }
  let s := { s with dataIdx := BytesToU64 (getOrNil s.db keyDataIdx) }
  let gcPos := (s.db.Get keyGCPos).toOption
  pure { s with gcPos := if gcPos = none then some s.gcStartPos else gcPos }

open GoEthereum.StateM (except_ok_bind except_pure except_bind_eq_ok)

/-! ## Keys -/

/-- Keys with different first bytes differ: the index, the data and each
counter have a first byte of their own. -/
theorem ne_of_head?_ne {k k' : List UInt8} (h : k.head? ≠ k'.head?) : k ≠ k' :=
  fun heq => h (congrArg List.head? heq)

@[simp] theorem head?_getIndexKey (hash : List UInt8) : (getIndexKey hash).head? = some kpIndex := rfl

@[simp] theorem head?_getDataKey (idx : Nat) : (getDataKey idx).head? = some kpData := rfl

theorem BytesToU64_U64ToBytes (val : Nat) : BytesToU64 (U64ToBytes val) = val % 2 ^ 64 := by
  have hlen : (U64ToBytes val).length = 8 := by simp [U64ToBytes, putUint64]
  rw [BytesToU64, if_neg (by omega), ← hlen, List.take_length]
  simp [U64ToBytes, putUint64, BigEndian.value_bytes]

@[simp] theorem BytesToU64_nil : BytesToU64 [] = 0 := rfl

/-! ## The index encoding -/

theorem length_writeUint_le (i : Nat) (hi : i < 2 ^ 64) :
    (Rlp.writeUint i Rlp.Encbuf.reset).toBytes.length ≤ 9 := by
  have hw := Rlp.Stream.width_le_eight i hi
  rw [Rlp.toBytes_writeUint_eq i hi]
  split_ifs
  · simp
  · simp
  · simp only [List.length_append, Rlp.length_lengthPrefix, BigEndian.length_bytes]
    split_ifs <;> omega

/-- The index is the list of its two integers. -/
theorem encodeIndex_eq (index : DpaDBIndex) (hIdx : index.Idx < 2 ^ 64)
    (hAccess : index.Access < 2 ^ 64) :
    encodeIndex index =
      Rlp.lengthPrefix 0xC0 ((Rlp.writeUint index.Idx Rlp.Encbuf.reset).toBytes ++
        (Rlp.writeUint index.Access Rlp.Encbuf.reset).toBytes).length ++
      ((Rlp.writeUint index.Idx Rlp.Encbuf.reset).toBytes ++
        (Rlp.writeUint index.Access Rlp.Encbuf.reset).toBytes) := by
  have h₁ := length_writeUint_le _ hIdx
  have h₂ := length_writeUint_le _ hAccess
  have hext : Rlp.Extends Rlp.Encbuf.reset.list.2
      (Rlp.writeUint index.Access (Rlp.writeUint index.Idx Rlp.Encbuf.reset.list.2))
      ((Rlp.writeUint index.Idx Rlp.Encbuf.reset).toBytes ++
        (Rlp.writeUint index.Access Rlp.Encbuf.reset).toBytes) := by
    rw [Rlp.writeUint_eq_append index.Access, Rlp.writeUint_eq_append index.Idx]
    simpa [List.append_assoc] using Rlp.Extends.str_append Rlp.Encbuf.reset.list.2
      ((Rlp.writeUint index.Idx Rlp.Encbuf.reset).toBytes ++
        (Rlp.writeUint index.Access Rlp.Encbuf.reset).toBytes)
  exact Rlp.toBytes_of_extends
    (Rlp.list_listEnd_extends _ _ _ hext (by rw [List.length_append]; omega))

/-- `decodeIndex` reads back every index `encodeIndex` writes. -/
theorem decodeIndex_encodeIndex (index : DpaDBIndex) (hIdx : index.Idx < 2 ^ 64)
    (hAccess : index.Access < 2 ^ 64) (index₀ : DpaDBIndex) :
    decodeIndex (encodeIndex index) index₀ = index := by
  have h₁ := length_writeUint_le _ hIdx
  have h₂ := length_writeUint_le _ hAccess
  have henc := encodeIndex_eq index hIdx hAccess
  have hfresh : Rlp.Fresh (Rlp.Stream.newStream (encodeIndex index) 0)
      (encodeIndex index) [] :=
    ⟨rfl, by simp [Rlp.Stream.newStream], ⟨by simp [Rlp.Stream.newStream],
      by simp [Rlp.Stream.newStream]⟩⟩
  rw [henc] at hfresh
  obtain ⟨t, hlist, hin⟩ := Rlp.list_lengthPrefix _ _ _ (by rw [List.length_append]; omega)
    hfresh
  obtain ⟨s₁, s₂, hu₁, hu₂⟩ := Rlp.uint_uint_lengthPrefix _ _ hIdx hAccess t [] hin
  rw [decodeIndex, henc, hlist]
  simp only [hu₁, hu₂]

/-! ## What each call does -/

section Specs

variable {s : DbStore} {ikey : List UInt8} {index : DpaDBIndex}

theorem tryAccessIdx_of_error (h : s.db.Get ikey = .error .ErrNotFound) :
    s.tryAccessIdx ikey index = (false, index, s) := by
  simp [DbStore.tryAccessIdx, h]

theorem tryAccessIdx_of_ok {idata : List UInt8} (h : s.db.Get ikey = .ok idata) :
    s.tryAccessIdx ikey index =
      (true, { decodeIndex idata index with Access := s.accessCnt + 1 },
        { s with
          db := s.db.Write [.put keyAccessCnt (U64ToBytes s.accessCnt),
            .put ikey (encodeIndex { decodeIndex idata index with Access := s.accessCnt + 1 })],
          accessCnt := s.accessCnt + 1 }) := by
  simp [DbStore.tryAccessIdx, h]

/-- `Put` of a chunk with no index entry, below the capacity: one batch
writes the data, the index and the counters as they were before the
increments. -/
theorem Put_of_new {fuel : Nat} {chunk : DbChunk}
    (hnew : s.db.Get (getIndexKey chunk.Key) = .error .ErrNotFound) (hcap : s.entryCnt < s.capacity) :
    s.Put fuel chunk = .ok { s with
      db := s.db.Write [.put (getDataKey s.dataIdx) chunk.SData,
        .put (getIndexKey chunk.Key) (encodeIndex ⟨s.dataIdx, s.accessCnt⟩),
        .put keyEntryCnt (U64ToBytes s.entryCnt), .put keyDataIdx (U64ToBytes s.dataIdx),
        .put keyAccessCnt (U64ToBytes s.accessCnt)],
      entryCnt := s.entryCnt + 1, dataIdx := s.dataIdx + 1, accessCnt := s.accessCnt + 1 } := by
  simp [DbStore.Put, tryAccessIdx_of_error hnew, not_le.mpr hcap, encodeData]

/-- The batch of `tryAccessIdx` leaves the data keys as they are. -/
theorem Get_getDataKey_access (db : LDBDatabase) (hash v w : List UInt8) (idx : Nat) :
    (db.Write [.put keyAccessCnt v, .put (getIndexKey hash) w]).Get (getDataKey idx) =
      db.Get (getDataKey idx) := by
  rw [LDBDatabase.Write_put, LDBDatabase.Write_put, LDBDatabase.Write_nil,
    LDBDatabase.Get_Put_ne _ _ (ne_of_head?_ne (by simp [kpIndex, kpData])),
    LDBDatabase.Get_Put_ne _ _ (ne_of_head?_ne (by simp [keyAccessCnt, kpData]))]

variable {key idata data : List UInt8}

/-- `Get` of a key whose data fails the hash check: the data is deleted, the
index entry stays. -/
theorem Get_of_invalid (hidx : s.db.Get (getIndexKey key) = .ok idata)
    (hdata : s.db.Get (getDataKey (decodeIndex idata ⟨0, 0⟩).Idx) = .ok data)
    (hhash : s.hashfunc data ≠ key) :
    s.Get key = .ok (.error (.invalidChunk (s.hashfunc data) key),
      { s with
        db := (s.db.Write [.put keyAccessCnt (U64ToBytes s.accessCnt),
          .put (getIndexKey key)
            (encodeIndex { decodeIndex idata ⟨0, 0⟩ with Access := s.accessCnt + 1 })]).Delete
          (getDataKey (decodeIndex idata ⟨0, 0⟩).Idx),
        accessCnt := s.accessCnt + 1 }) := by
  simp only [DbStore.Get, tryAccessIdx_of_ok hidx, if_true, Get_getDataKey_access, hdata,
    if_pos hhash]

/-- `Get` of a key whose data passes the hash check returns the data. -/
theorem Get_of_valid (hidx : s.db.Get (getIndexKey key) = .ok idata)
    (hdata : s.db.Get (getDataKey (decodeIndex idata ⟨0, 0⟩).Idx) = .ok data)
    (hhash : s.hashfunc data = key) (hlen : 8 ≤ data.length) :
    (s.Get key).map Prod.fst =
      .ok (.ok { Key := key, SData := data, Size := BigEndian.value (data.take 8).reverse }) := by
  simp only [DbStore.Get, tryAccessIdx_of_ok hidx, if_true, Get_getDataKey_access, hdata]
  simp [hhash, decodeData, not_lt.mpr hlen, Except.map]

/-- `Get` of a key with no index entry changes nothing. -/
theorem Get_of_absent (hidx : s.db.Get (getIndexKey key) = .error .ErrNotFound) :
    s.Get key = .ok (.error .notFound, s) := by
  simp only [DbStore.Get, tryAccessIdx_of_error hidx]
  rfl

end Specs

/-- Within one session `Get` returns what `Put` stored, as long as the
counters fit their 64 bits. -/
theorem Get_Put_of_new {s : DbStore} {fuel : Nat} {chunk : DbChunk}
    (hnew : s.db.Get (getIndexKey chunk.Key) = .error .ErrNotFound) (hcap : s.entryCnt < s.capacity)
    (hIdx : s.dataIdx < 2 ^ 64) (hAccess : s.accessCnt < 2 ^ 64)
    (hhash : s.hashfunc chunk.SData = chunk.Key) (hlen : 8 ≤ chunk.SData.length) :
    ∃ s', s.Put fuel chunk = .ok s' ∧
      (s'.Get chunk.Key).map Prod.fst =
        .ok (.ok { chunk with Size := BigEndian.value (chunk.SData.take 8).reverse }) := by
  refine ⟨_, Put_of_new hnew hcap,
    @Get_of_valid _ _ (encodeIndex ⟨s.dataIdx, s.accessCnt⟩) _ ?_ ?_ hhash hlen⟩
  · simp [LDBDatabase.Get_Put_ne, getIndexKey, keyEntryCnt, keyDataIdx, keyAccessCnt, kpIndex]
  · simp [decodeIndex_encodeIndex ⟨s.dataIdx, s.accessCnt⟩ hIdx hAccess, LDBDatabase.Get_Put_ne,
      getIndexKey, getDataKey,
      keyEntryCnt, keyDataIdx, keyAccessCnt, kpIndex, kpData]


/-- `NewDbStore` applies the capacity before it reads the counters, when
`entryCnt` is still zero: it never collects garbage, and the store it returns
holds the counters the database holds, whatever the capacity. -/
theorem NewDbStore_eq (db : LDBDatabase) (hash : List UInt8 → List UInt8) (capacity fuel : Nat) :
    NewDbStore db hash capacity fuel = .ok {
      db := db, entryCnt := BytesToU64 (getOrNil db keyEntryCnt),
      accessCnt := BytesToU64 (getOrNil db keyAccessCnt),
      dataIdx := BytesToU64 (getOrNil db keyDataIdx), capacity := capacity,
      gcPos := some (((db.Get keyGCPos).toOption).getD [kpIndex]), gcStartPos := [kpIndex],
      gcArray := List.replicate gcArraySize none, hashfunc := hash } := by
  have hcap : ¬(0 > capacity) := by omega
  cases hpos : (db.Get keyGCPos).toOption <;>
    simp [NewDbStore, DbStore.setCapacity, hcap, hpos]

/-- A `Put` of a new chunk and a reopen: the reopened store counts one entry
less than the store it was closed as, and takes up the data index that `Put`
has just used. -/
theorem reopen_after_Put {s : DbStore} {fuel : Nat} {chunk : DbChunk}
    (hnew : s.db.Get (getIndexKey chunk.Key) = .error .ErrNotFound) (hcap : s.entryCnt < s.capacity)
    (hash : List UInt8 → List UInt8) (capacity fuel' : Nat) :
    ∃ s', s.Put fuel chunk = .ok s' ∧ s'.entryCnt = s.entryCnt + 1 ∧
      s'.db.Get (getDataKey s.dataIdx) = .ok chunk.SData ∧
      ∃ r, NewDbStore s'.db hash capacity fuel' = .ok r ∧
        r.entryCnt = s.entryCnt % 2 ^ 64 ∧ r.dataIdx = s.dataIdx % 2 ^ 64 := by
  refine ⟨_, Put_of_new hnew hcap, rfl, ?_, _, NewDbStore_eq _ _ _ _, ?_, ?_⟩
  · simp [LDBDatabase.Get_Put_ne, getIndexKey, getDataKey, keyEntryCnt, keyDataIdx,
      keyAccessCnt, kpIndex, kpData]
  all_goals
    simp [getOrNil, LDBDatabase.Get_Put_ne, getIndexKey, getDataKey, keyEntryCnt, keyDataIdx,
      keyAccessCnt, kpIndex, kpData, BytesToU64_U64ToBytes]

/-- A chunk lost across a restart, with no garbage collection: from an empty
database, `Put` of `a`, close and reopen, and `Put` of a valid chunk `b` with
another key. The reopened store counts no entry, although the database holds
`a`'s, and writes `b`'s data over `a`'s, so that `Get` of `a` fails the hash
check. Both `Put`s find `entryCnt = 0 < capacity` and do not collect. -/
theorem reopen_overwrites_chunk (hash : List UInt8 → List UInt8) (capacity fuel : Nat)
    (hcap : 1 ≤ capacity) (a b : DbChunk) (hb : hash b.SData = b.Key) (hab : a.Key ≠ b.Key) :
    ∃ s₁ s₂ s₃ s₄,
      NewDbStore LDBDatabase.empty hash capacity fuel = .ok s₁ ∧ s₁.entryCnt = 0 ∧
      s₁.Put fuel a = .ok s₂ ∧ s₂.entryCnt = 1 ∧
      NewDbStore s₂.db hash capacity fuel = .ok s₃ ∧ s₃.entryCnt = 0 ∧
      s₃.Put fuel b = .ok s₄ ∧
      (s₄.Get a.Key).map Prod.fst = .ok (.error (.invalidChunk b.Key a.Key)) := by
  refine ⟨_, _, _, _, NewDbStore_eq _ _ _ _, ?_, Put_of_new ?_ ?_, rfl, NewDbStore_eq _ _ _ _, ?_,
    Put_of_new ?_ ?_, ?_⟩
  rotate_right
  · -- `a`'s index entry leads to data index 0, which now holds `b`'s data
    rw [@Get_of_invalid _ _ (encodeIndex ⟨0, 0⟩) b.SData]
    · simp [Except.map, hb]
    · simp [LDBDatabase.Get_Put_ne, Ne.symm hab, getIndexKey, getDataKey, keyEntryCnt,
        keyDataIdx, keyAccessCnt, kpIndex, kpData, getOrNil, BytesToU64_U64ToBytes]
    · simp [decodeIndex_encodeIndex ⟨0, 0⟩ (by norm_num) (by norm_num), LDBDatabase.Get_Put_ne,
        getIndexKey, getDataKey, keyEntryCnt, keyDataIdx, keyAccessCnt, kpIndex, kpData, getOrNil,
        BytesToU64_U64ToBytes]
    · simpa [hb] using Ne.symm hab
  all_goals
    simp [LDBDatabase.Get_Put_ne, hab, getIndexKey, getDataKey, keyEntryCnt, keyDataIdx,
      keyAccessCnt, kpIndex, kpData, getOrNil, BytesToU64_U64ToBytes]
  all_goals omega

theorem reopen_overwrites_chunk_sevenEight :
    1 ≤ 5 ∧ List.take 2 ([8, 8] : List UInt8) = [8, 8] ∧ ([7, 7] : List UInt8) ≠ [8, 8] ∧
    ∃ s₁ s₂ s₃ s₄,
      NewDbStore LDBDatabase.empty (List.take 2) 5 0 = .ok s₁ ∧ s₁.entryCnt = 0 ∧
      s₁.Put 0 ⟨⟨[7, 7], 0⟩, [7, 7]⟩ = .ok s₂ ∧ s₂.entryCnt = 1 ∧
      NewDbStore s₂.db (List.take 2) 5 0 = .ok s₃ ∧ s₃.entryCnt = 0 ∧
      s₃.Put 0 ⟨⟨[8, 8], 0⟩, [8, 8]⟩ = .ok s₄ ∧
      (s₄.Get [7, 7]).map Prod.fst = .ok (.error (.invalidChunk [8, 8] [7, 7])) :=
  ⟨by decide, rfl, by decide,
    reopen_overwrites_chunk (List.take 2) 5 0 (by decide) ⟨⟨[7, 7], 0⟩, [7, 7]⟩
      ⟨⟨[8, 8], 0⟩, [8, 8]⟩ rfl (by decide)⟩

end GoEthereum.Swarm
