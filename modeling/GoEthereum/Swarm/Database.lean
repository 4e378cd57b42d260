import GoEthereum.Data.SortedStore
import Mathlib

/-!
The LevelDB database of swarm's storage (`swarm/storage/database.go`), the
`LDBDatabase` that `DbStore` and the sync queues of `syncDb` share.

LevelDB's default comparator orders keys bytewise, a proper prefix first: the
lexicographic order of `List UInt8` over the order of the byte values. The
database is a `SortedStore.Store` in that order. `comp` is always false
(`NewLDBDatabase`), so values are stored as given. A write of LevelDB does not
fail here; `Put` prints its error and goes on, and the callers of `Write` and
`Delete` drop theirs. An iterator reads a snapshot: `rest` holds the entries
from its position on, and a seek positions it in the snapshot again. `Key`
returns goleveldb's key buffer (`dbIter.key`), which every step that finds a
key overwrites in place: `lastKey` is what the buffer holds, the last key
found. A step over keys deleted but not yet compacted writes them there too;
the model, which has no deleted keys, leaves that out.
-/

namespace GoEthereum.Swarm

/-- The byte order of LevelDB's keys. -/
instance instLinearOrderByte : LinearOrder UInt8 :=
  LinearOrder.lift' UInt8.toNat (fun _ _ h => UInt8.toNat_inj.mp h)

open SortedStore

/-- `leveldb.ErrNotFound`, "leveldb: not found". -/
inductive DbError where
  | ErrNotFound
  deriving DecidableEq, Repr

/-- `LDBDatabase`, with `comp` false. -/
structure LDBDatabase where
  db : Store (List UInt8) (List UInt8)

/-- A write of a `leveldb.Batch`. -/
abbrev BatchOp := Op (List UInt8) (List UInt8)

/-- `iterator.Iterator` over a snapshot of the database. -/
structure Iterator where
  snapshot : Store (List UInt8) (List UInt8)
  rest : List (List UInt8 × List UInt8)
  lastKey : List UInt8

namespace LDBDatabase

def Get (self : LDBDatabase) (key : List UInt8) : Except DbError (List UInt8) :=
  match self.db.get key with
  | some v => .ok v
  | none => .error .ErrNotFound

def Put (self : LDBDatabase) (key value : List UInt8) : LDBDatabase := ⟨self.db.put key value⟩

def Delete (self : LDBDatabase) (key : List UInt8) : LDBDatabase := ⟨self.db.delete key⟩

def Write (self : LDBDatabase) (batch : List BatchOp) : LDBDatabase := ⟨self.db.write batch⟩

/-- `NewIterator`, not positioned yet; each caller seeks it first. -/
def NewIterator (self : LDBDatabase) : Iterator := ⟨self.db, [], []⟩

/-- A database that holds no key. -/
def empty : LDBDatabase := ⟨Store.empty⟩

@[simp] theorem Get_Put_self (d : LDBDatabase) (k v : List UInt8) : (d.Put k v).Get k = .ok v := by
  simp [Get, Put]

theorem Get_Put_ne (d : LDBDatabase) {k k₂ : List UInt8} (v : List UInt8) (h : k ≠ k₂) :
    (d.Put k v).Get k₂ = d.Get k₂ := by
  simp only [Get, Put, Store.get_put_ne _ _ h]

@[simp] theorem Get_Delete_self (d : LDBDatabase) (k : List UInt8) :
    (d.Delete k).Get k = .error .ErrNotFound := by
  simp [Get, Delete]

@[simp] theorem Get_empty (k : List UInt8) : empty.Get k = .error .ErrNotFound := rfl

@[simp] theorem Write_nil (d : LDBDatabase) : d.Write [] = d := rfl

@[simp] theorem Write_put (d : LDBDatabase) (k v : List UInt8) (batch : List BatchOp) :
    d.Write (.put k v :: batch) = (d.Put k v).Write batch := rfl

@[simp] theorem Write_delete (d : LDBDatabase) (k : List UInt8) (batch : List BatchOp) :
    d.Write (.delete k :: batch) = (d.Delete k).Write batch := rfl

end LDBDatabase

namespace Iterator

/-- Positions the iterator at `rest`; a key found goes to the key buffer. -/
def moveTo (it : Iterator) (rest : List (List UInt8 × List UInt8)) : Iterator :=
  { it with rest := rest, lastKey := (rest.head?.map Prod.fst).getD it.lastKey }

/-- `Seek`: the first key at or after `key`. -/
def Seek (it : Iterator) (key : List UInt8) : Iterator := it.moveTo (it.snapshot.seek key)

def Valid (it : Iterator) : Bool := !it.rest.isEmpty

def Next (it : Iterator) : Iterator := it.moveTo it.rest.tail

/-- `Key`; an exhausted iterator gives `nil`, the empty key here. -/
def Key (it : Iterator) : List UInt8 := (it.rest.head?.map Prod.fst).getD []

def Value (it : Iterator) : List UInt8 := (it.rest.head?.map Prod.snd).getD []

@[simp] theorem rest_Seek (it : Iterator) (key : List UInt8) :
    (it.Seek key).rest = it.snapshot.seek key := rfl

@[simp] theorem rest_Next (it : Iterator) : it.Next.rest = it.rest.tail := rfl

theorem Key_of_rest {it : Iterator} {k v : List UInt8} {rest : List (List UInt8 × List UInt8)}
    (h : it.rest = (k, v) :: rest) : it.Key = k := by
  simp [Key, h]

theorem Value_of_rest {it : Iterator} {k v : List UInt8} {rest : List (List UInt8 × List UInt8)}
    (h : it.rest = (k, v) :: rest) : it.Value = v := by
  simp [Value, h]

theorem Key_of_rest_nil {it : Iterator} (h : it.rest = []) : it.Key = [] := by
  simp [Key, h]

theorem Valid_iff {it : Iterator} : it.Valid = true ↔ it.rest ≠ [] := by
  simp [Valid]

end Iterator

end GoEthereum.Swarm
