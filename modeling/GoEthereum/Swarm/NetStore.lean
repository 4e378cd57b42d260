import GoEthereum.Swarm.DbStore
import Mathlib

/-!
The chunk stores above `DbStore` (`swarm/storage/memstore.go`,
`localstore.go`, `netstore.go`, `dpa.go`) and the handler of the store
requests peers send (`swarm/network/depo.go`, `protocol.go`).

`MemStore` keeps its chunks at the leaves of a tree indexed by the bits of
their keys; each leaf keeps an access count, and `removeOldest` evicts the
leaf of the least nonzero count and panics when no leaf counts. A `*Chunk` is
shared by pointer: where the source writes into a chunk the memory store
holds, the `Put` that follows writes the changed chunk back. A request
status is its own channel: `close(entry.Req.C)` is the event `close`.
-/

namespace GoEthereum.Swarm

open GoEthereum.StateM (except_ok_bind except_pure except_bind_eq_ok)

def dbForceUpdateAccessCnt : Nat := 1000

/-- `*RequestStatus`, which is also its channel `C`. -/
structure RequestStatus where
  Key : List UInt8
  deriving DecidableEq, Repr

/-- `*Chunk` as the network layer holds it; `SData` is `none` where the slice
is nil. -/
structure NetChunk where
  Key : List UInt8
  SData : Option (List UInt8)
  Size : Nat
  Source : Option Nat
  Req : Option RequestStatus
  deriving DecidableEq, Repr

def NewChunk (key : List UInt8) (rs : Option RequestStatus) : NetChunk :=
  { Key := key, SData := none, Size := 0, Source := none, Req := rs }

def newRequestStatus (key : List UInt8) : RequestStatus := ⟨key⟩

/-- What a call hands on: the close of a request's channel and the calls of
the `CloudStore`. -/
inductive NetEvent where
  | close (req : RequestStatus)
  | Store (chunk : NetChunk)
  | Deliver (chunk : NetChunk)
  | Retrieve (chunk : NetChunk)
  deriving DecidableEq, Repr

/-- A leaf of the memory tree: its entry, `lastDBaccess` and `access[0]`. -/
structure MemNode where
  entry : NetChunk
  lastDBaccess : Nat
  access : Nat
  deriving DecidableEq, Repr

structure MemStore where
  nodes : List MemNode
  entryCnt : Nat
  capacity : Nat
  accessCnt : Nat
  dbAccessCnt : Nat

/-- `NewMemStore` with `setCapacity`, which removes nothing from the empty
tree. -/
def NewMemStore (capacity : Nat) : MemStore :=
  { nodes := [], entryCnt := 0, capacity := capacity, accessCnt := 0, dbAccessCnt := 0 }

namespace MemStore

/-- The walk down the tree to the leaf of `hash`. -/
def lookup (s : MemStore) (hash : List UInt8) : Option MemNode :=
  s.nodes.find? (fun n => n.entry.Key = hash)

/-- The leaf of `node`'s key replaced by `node`. -/
def setNode (nodes : List MemNode) (node : MemNode) : List MemNode :=
  nodes.map (fun n => if n.entry.Key = node.entry.Key then node else n)

/-- The leaf `removeOldest` walks down to. -/
def oldest (nodes : List MemNode) : Option MemNode :=
  (nodes.filter (fun n => n.access ≠ 0)).argmin MemNode.access

def removeOldest (s : MemStore) : Except DbFault MemStore :=
  match oldest s.nodes with
  | none => .error (.panic "nil")
  | some node =>
    -- a request entry stays in the tree; only its access count is cleared
    if node.entry.SData.isSome then
      .ok { s with nodes := s.nodes.filter (fun n => n.entry.Key ≠ node.entry.Key),
                   entryCnt := s.entryCnt - 1 }
    else .ok { s with nodes := setNode s.nodes { node with access := 0 } }

/-- `Put` after the eviction: the leaf of the entry's key takes the entry,
filled from the chunk the leaf held, or a new leaf is made for it. -/
def insert (s : MemStore) (entry : NetChunk) : NetChunk × MemStore :=
  let accessCnt := s.accessCnt + 1
  match s.lookup entry.Key with
  | some node =>
    let entry := if entry.SData = none then
      { entry with Size := node.entry.Size, SData := node.entry.SData } else entry
    let entry := if entry.Req = none then { entry with Req := node.entry.Req } else entry
    (entry, { s with nodes := setNode s.nodes { node with entry := entry, access := accessCnt },
                     accessCnt := accessCnt })
  | none =>
    (entry, { s with
      nodes := ⟨entry, s.dbAccessCnt, accessCnt⟩ :: s.nodes, accessCnt := accessCnt,
      entryCnt := s.entryCnt + 1 })

/-- `Put`, with the entry as the leaf of its key has filled it. -/
def Put (s : MemStore) (entry : NetChunk) : Except DbFault (NetChunk × MemStore) :=
  if s.capacity = 0 then .ok (entry, s)
  else (if s.entryCnt ≥ s.capacity then s.removeOldest else pure s).map (·.insert entry)

/-- `Get`, with the `DbStore` whose access count it may update. -/
def Get (s : MemStore) (dbStore : DbStore) (hash : List UInt8) :
    Except StoreError NetChunk × MemStore × DbStore :=
  match s.lookup hash with
  | none => (.error .notFound, s, dbStore)
  | some node =>
    let accessCnt := s.accessCnt + 1
    let node := { node with access := accessCnt }
    if s.dbAccessCnt - node.lastDBaccess > dbForceUpdateAccessCnt then
      let dbAccessCnt := s.dbAccessCnt + 1
      let node := { node with lastDBaccess := dbAccessCnt }
      let (_, _, dbStore) := dbStore.tryAccessIdx (getIndexKey hash) ⟨0, 0⟩
      (.ok node.entry,
        { s with nodes := setNode s.nodes node, accessCnt := accessCnt, dbAccessCnt := dbAccessCnt },
        dbStore)
    else (.ok node.entry, { s with nodes := setNode s.nodes node, accessCnt := accessCnt }, dbStore)

section Specs

variable {s : MemStore} {entry : NetChunk} {hash : List UInt8} {node : MemNode}

theorem lookup_of_head {rest : List MemNode} (h : s.nodes = node :: rest) :
    s.lookup node.entry.Key = some node := by
  simp [lookup, h]

theorem insert_of_absent (h : s.lookup entry.Key = none) :
    s.insert entry = (entry, { s with
      nodes := ⟨entry, s.dbAccessCnt, s.accessCnt + 1⟩ :: s.nodes, accessCnt := s.accessCnt + 1,
      entryCnt := s.entryCnt + 1 }) := by
  simp [insert, h]

/-- `Put` of a chunk whose key has no leaf, with room left: a new leaf. -/
theorem Put_of_absent (hroom : s.entryCnt < s.capacity) (h : s.lookup entry.Key = none) :
    s.Put entry = .ok (entry, { s with
      nodes := ⟨entry, s.dbAccessCnt, s.accessCnt + 1⟩ :: s.nodes, accessCnt := s.accessCnt + 1,
      entryCnt := s.entryCnt + 1 }) := by
  have hpos : s.capacity ≠ 0 := by omega
  rw [Put, if_neg hpos, if_neg (not_le.mpr hroom), ← insert_of_absent h]
  rfl

theorem Get_of_none {db : DbStore} (h : s.lookup hash = none) :
    s.Get db hash = (.error .notFound, s, db) := by
  simp [Get, h]

/-- `Get` of a key at its leaf, accessed through the database recently enough. -/
theorem Get_of_lookup {db : DbStore} (h : s.lookup hash = some node)
    (hdb : s.dbAccessCnt - node.lastDBaccess ≤ dbForceUpdateAccessCnt) :
    s.Get db hash = (.ok node.entry,
      { s with nodes := setNode s.nodes { node with access := s.accessCnt + 1 },
               accessCnt := s.accessCnt + 1 }, db) := by
  simp [Get, h, not_lt.mpr hdb]

end Specs

/-! ## The database access counts -/

theorem mem_setNode {nodes : List MemNode} {node n : MemNode} (h : n ∈ setNode nodes node) :
    n = node ∨ n ∈ nodes := by
  obtain ⟨m, hm, rfl⟩ := List.mem_map.mp h
  by_cases hk : m.entry.Key = node.entry.Key
  · exact .inl (if_pos hk)
  · exact .inr (by rwa [if_neg hk])

theorem oldest_mem {nodes : List MemNode} {node : MemNode} (h : oldest nodes = some node) :
    node ∈ nodes :=
  (List.mem_filter.mp (List.argmin_mem h)).1

/-- `dbAccessCnt` and the `lastDBaccess` of every leaf are zero. `Get` raises
`dbAccessCnt` only when it is more than `dbForceUpdateAccessCnt` past a leaf's
`lastDBaccess`, and `Put` makes each leaf at the current `dbAccessCnt`. -/
structure DbAccessIdle (s : MemStore) : Prop where
  dbAccessCnt_eq : s.dbAccessCnt = 0
  lastDBaccess_eq : ∀ n ∈ s.nodes, n.lastDBaccess = 0

theorem dbAccessIdle_NewMemStore (capacity : Nat) : DbAccessIdle (NewMemStore capacity) :=
  ⟨rfl, fun _ h => absurd h List.not_mem_nil⟩

variable {s s' : MemStore}

theorem DbAccessIdle.removeOldest (hi : DbAccessIdle s) (h : s.removeOldest = .ok s') :
    DbAccessIdle s' := by
  unfold MemStore.removeOldest at h
  split at h
  · cases h
  · rename_i node hold
    -- a leaf with data is dropped, a request leaf has its access count cleared
    split at h <;> cases h
    · exact ⟨hi.1, fun n hn => hi.2 n (List.mem_filter.mp hn).1⟩
    · refine ⟨hi.1, fun n hn => ?_⟩
      rcases mem_setNode hn with rfl | hn
      · exact hi.2 node (oldest_mem hold)
      · exact hi.2 n hn

theorem DbAccessIdle.insert (hi : DbAccessIdle s) (entry : NetChunk) :
    DbAccessIdle (s.insert entry).2 := by
  unfold MemStore.insert
  split
  · rename_i node hnode
    refine ⟨hi.1, fun n hn => ?_⟩
    rcases mem_setNode hn with rfl | hn
    · exact hi.2 node (List.mem_of_find?_eq_some hnode)
    · exact hi.2 n hn
  · -- the new leaf is made at `dbAccessCnt`, which is zero
    refine ⟨hi.1, fun n hn => ?_⟩
    rcases List.mem_cons.mp hn with rfl | hn
    · exact hi.1
    · exact hi.2 n hn

theorem DbAccessIdle.Put (hi : DbAccessIdle s) {entry : NetChunk} {r : NetChunk × MemStore}
    (h : s.Put entry = .ok r) : DbAccessIdle r.2 := by
  unfold MemStore.Put at h
  split at h
  · cases h
    exact hi
  · split at h
    · cases hr : s.removeOldest with
      | error e =>
        rw [hr] at h
        cases h
      | ok s₁ =>
        rw [hr] at h
        cases h
        exact (hi.removeOldest hr).insert entry
    · cases h
      exact hi.insert entry

/-- From an idle store `Get` never takes the branch that updates the
database, and leaves the store idle. -/
theorem DbAccessIdle.Get (hi : DbAccessIdle s) (db : DbStore) (hash : List UInt8) :
    DbAccessIdle (s.Get db hash).2.1 ∧ (s.Get db hash).2.2 = db := by
  cases hnode : s.lookup hash with
  | none =>
    rw [Get_of_none hnode]
    exact ⟨hi, rfl⟩
  | some node =>
    have hlast := hi.2 node (List.mem_of_find?_eq_some hnode)
    rw [Get_of_lookup hnode (by simp [hi.1, hlast, dbForceUpdateAccessCnt])]
    refine ⟨⟨hi.1, fun n hn => ?_⟩, rfl⟩
    rcases mem_setNode hn with rfl | hn
    · exact hlast
    · exact hi.2 n hn

/-- A call on the memory store. -/
inductive MemOp where
  | Put (entry : NetChunk)
  | Get (hash : List UInt8)

/-- The calls one after another, with the database `Get` may update. -/
def run (s : MemStore) (db : DbStore) : List MemOp → Except DbFault (MemStore × DbStore)
  | [] => .ok (s, db)
  | .Put entry :: ops => do
    let (_, s) ← s.Put entry
    s.run db ops
  | .Get hash :: ops => (s.Get db hash).2.1.run (s.Get db hash).2.2 ops

theorem DbAccessIdle.run (hi : DbAccessIdle s) {db db' : DbStore} {ops : List MemOp}
    (h : s.run db ops = .ok (s', db')) : DbAccessIdle s' ∧ db' = db := by
  induction ops generalizing s db with
  | nil =>
    cases h
    exact ⟨hi, rfl⟩
  | cons op ops ih =>
    cases op with
    | Put entry =>
      obtain ⟨⟨_, s₁⟩, h₁, h⟩ := except_bind_eq_ok.mp h
      exact ih (hi.Put h₁) h
    | Get hash =>
      obtain ⟨hi₁, hdb⟩ := hi.Get db hash
      obtain ⟨hi', hdb'⟩ := ih hi₁ h
      exact ⟨hi', hdb'.trans hdb⟩

/-- Whatever calls the memory store gets, it never forces an update of the
access count in `DbStore` (`dbStore.updateAccessCnt`): the database after any
run is the one it started with. -/
theorem run_keeps_db (capacity : Nat) (db : DbStore) (ops : List MemOp) {s : MemStore}
    {db' : DbStore} (h : (NewMemStore capacity).run db ops = .ok (s, db')) : db' = db :=
  ((dbAccessIdle_NewMemStore capacity).run h).2

/-- A store that keeps a chunk, serves it twice and misses another key. -/
theorem run_keeps_db_served :
    ∃ s db', (NewMemStore 4).run ⟨LDBDatabase.empty, 0, 0, 0, 5, none, [], [], id⟩
        [.Put ⟨[1], some [7], 1, none, none⟩, .Get [1], .Get [1], .Get [2]] = .ok (s, db') ∧
      db' = ⟨LDBDatabase.empty, 0, 0, 0, 5, none, [], [], id⟩ := by
  have h : (NewMemStore 4).run ⟨LDBDatabase.empty, 0, 0, 0, 5, none, [], [], id⟩
      [.Put ⟨[1], some [7], 1, none, none⟩, .Get [1], .Get [1], .Get [2]] = .ok (_, _) := rfl
  exact ⟨_, _, h, run_keeps_db 4 _ _ h⟩

end MemStore

structure LocalStore where
  memStore : MemStore
  DbStore : DbStore

/-- The chunk as `DbStore` stores it; nil data is stored empty. -/
def NetChunk.toDbChunk (chunk : NetChunk) : DbChunk :=
  { Key := chunk.Key, SData := chunk.SData.getD [], Size := chunk.Size }

namespace LocalStore

def Put (self : LocalStore) (fuel : Nat) (chunk : NetChunk) :
    Except DbFault (NetChunk × LocalStore) := do
  let (chunk, memStore) ← self.memStore.Put chunk
  let dbStore ← self.DbStore.Put fuel chunk.toDbChunk
  pure (chunk, { memStore := memStore, DbStore := dbStore })

def Get (self : LocalStore) (key : List UInt8) :
    Except DbFault (Except StoreError NetChunk × LocalStore) :=
  match self.memStore.Get self.DbStore key with
  | (.ok chunk, memStore, dbStore) => .ok (.ok chunk, ⟨memStore, dbStore⟩)
  | (.error _, memStore, dbStore) => do
    let (r, dbStore) ← dbStore.Get key
    match r with
    | .error err => pure (.error err, ⟨memStore, dbStore⟩)
    | .ok c =>
      let chunk : NetChunk :=
        { Key := c.Key, SData := some c.SData, Size := BigEndian.value (c.SData.take 8).reverse,
          Source := none, Req := none }
      let (chunk, memStore) ← memStore.Put chunk
      pure (.ok chunk, ⟨memStore, dbStore⟩)

section Specs

variable {ls : LocalStore} {key : List UInt8}

/-- `Get` of a key neither store holds changes nothing. -/
theorem Get_of_unknown (hmem : ls.memStore.lookup key = none)
    (hdb : ls.DbStore.db.Get (getIndexKey key) = .error .ErrNotFound) :
    ls.Get key = .ok (.error .notFound, ls) := by
  simp only [Get, MemStore.Get_of_none hmem, Get_of_absent hdb]
  rfl

theorem Get_of_lookup {node : MemNode} (h : ls.memStore.lookup key = some node)
    (hdb : ls.memStore.dbAccessCnt - node.lastDBaccess ≤ dbForceUpdateAccessCnt) :
    ∃ ls', ls.Get key = .ok (.ok node.entry, ls') := by
  simp [Get, MemStore.Get_of_lookup h hdb]

/-- `Put` of a chunk neither store holds, with room in both: a new leaf, and
the chunk unchanged. -/
theorem Put_of_unknown {fuel : Nat} {chunk : NetChunk}
    (hroom : ls.memStore.entryCnt < ls.memStore.capacity) (hmem : ls.memStore.lookup chunk.Key = none)
    (hdb : ls.DbStore.db.Get (getIndexKey chunk.Key) = .error .ErrNotFound)
    (hdbroom : ls.DbStore.entryCnt < ls.DbStore.capacity) :
    ∃ dbStore, ls.Put fuel chunk = .ok (chunk, ⟨{ ls.memStore with
      nodes := ⟨chunk, ls.memStore.dbAccessCnt, ls.memStore.accessCnt + 1⟩ :: ls.memStore.nodes,
      accessCnt := ls.memStore.accessCnt + 1, entryCnt := ls.memStore.entryCnt + 1 }, dbStore⟩) := by
  obtain ⟨dbStore, hput⟩ : ∃ d, ls.DbStore.Put fuel chunk.toDbChunk = .ok d :=
    ⟨_, Put_of_new hdb hdbroom⟩
  refine ⟨dbStore, ?_⟩
  simp only [Put, MemStore.Put_of_absent hroom hmem, except_ok_bind, hput]
  rfl

end Specs

end LocalStore

structure NetStore where
  hashfunc : List UInt8 → List UInt8
  localStore : LocalStore

namespace NetStore

def Put (self : NetStore) (fuel : Nat) (entry : NetChunk) :
    Except DbFault (NetStore × List NetEvent) := do
  let (entry, localStore) ← self.localStore.Put fuel entry
  let self := { self with localStore := localStore }
  match entry.Req with
  | some req => pure (self, [.close req, .Deliver entry])
  | none => pure (self, [.Store entry])

/-- `Get`, whose error is always nil: an unknown key opens a request. -/
def Get (self : NetStore) (key : List UInt8) :
    Except DbFault (NetChunk × NetStore × List NetEvent) := do
  let (r, localStore) ← self.localStore.Get key
  let self := { self with localStore := localStore }
  match r with
  | .ok chunk => pure (chunk, self, [])
  | .error _ =>
    let chunk := NewChunk key (some (newRequestStatus key))
    let (chunk, memStore) ← self.localStore.memStore.Put chunk
    pure (chunk, { self with localStore := { self.localStore with memStore := memStore } },
      [.Retrieve chunk])

section Specs

variable {self : NetStore} {fuel : Nat} {chunk : NetChunk}

/-- `Put` of a chunk that answers no request and that neither store holds
hands it to the cloud's `Store`. -/
theorem Put_of_unknown (hreq : chunk.Req = none)
    (hroom : self.localStore.memStore.entryCnt < self.localStore.memStore.capacity)
    (hmem : self.localStore.memStore.lookup chunk.Key = none)
    (hdb : self.localStore.DbStore.db.Get (getIndexKey chunk.Key) = .error .ErrNotFound)
    (hdbroom : self.localStore.DbStore.entryCnt < self.localStore.DbStore.capacity) :
    ∃ ns, self.Put fuel chunk = .ok (ns, [.Store chunk]) ∧
      ns.localStore.memStore.nodes = ⟨chunk, self.localStore.memStore.dbAccessCnt,
        self.localStore.memStore.accessCnt + 1⟩ :: self.localStore.memStore.nodes ∧
      ns.localStore.memStore.dbAccessCnt = self.localStore.memStore.dbAccessCnt := by
  obtain ⟨dbStore, hput⟩ := @LocalStore.Put_of_unknown self.localStore fuel chunk hroom hmem hdb hdbroom
  -- the store is the one `Put` returns, fixed by the first component
  exact ⟨_, by simp only [Put, hput, except_ok_bind, hreq]; rfl, by rfl, by rfl⟩

/-- `Get` of a key the memory store holds returns its chunk, checked or not. -/
theorem Get_of_lookup {key : List UInt8} {node : MemNode}
    (h : self.localStore.memStore.lookup key = some node)
    (hdb : self.localStore.memStore.dbAccessCnt - node.lastDBaccess ≤ dbForceUpdateAccessCnt) :
    ∃ ns, self.Get key = .ok (node.entry, ns, []) := by
  obtain ⟨ls', hget⟩ := LocalStore.Get_of_lookup h hdb
  exact ⟨_, by simp only [Get, hget, except_ok_bind]; rfl⟩

end Specs

end NetStore

/-- `dpaChunkStore`, whose `localStore` is its `netStore`'s. -/
structure DpaChunkStore where
  netStore : NetStore

/-- `dpaChunkStore.Put`; the counter `n` is left out. -/
def DpaChunkStore.Put (self : DpaChunkStore) (fuel : Nat) (entry : NetChunk) :
    Except DbFault (DpaChunkStore × List NetEvent) := do
  let (r, localStore) ← self.netStore.localStore.Get entry.Key
  let netStore := { self.netStore with localStore := localStore }
  let chunk? : Option NetChunk := match r with
    | .error _ => some entry
    | .ok chunk => if chunk.SData = none then
        some { chunk with SData := entry.SData, Size := entry.Size } else none
  match chunk? with
  | none => pure (⟨netStore⟩, [])
  | some chunk =>
    let (netStore, events) ← netStore.Put fuel chunk
    pure (⟨netStore⟩, events)

/-- `storeRequestMsgData`, with the fields the handler reads. -/
structure StoreRequestMsgData where
  Key : List UInt8
  SData : List UInt8

/-- `Depo`, whose `localStore` is its `netStore`'s. -/
structure Depo where
  hashfunc : List UInt8 → List UInt8
  netStore : NetStore

/-- The end of `HandleStoreRequestMsg`: the chunk gets the request's data, its
size and its source, and goes to `netStore.Put`. -/
def Depo.storeChunk (self : Depo) (fuel : Nat) (req : StoreRequestMsgData) (p : Nat)
    (chunk : NetChunk) : Except DbFault (Depo × List NetEvent) := do
  let chunk := { chunk with
    SData := some req.SData, Size := BigEndian.value (req.SData.take 8).reverse, Source := some p }
  let (netStore, events) ← self.netStore.Put fuel chunk
  pure ({ self with netStore := netStore }, events)

def Depo.HandleStoreRequestMsg (self : Depo) (fuel : Nat) (req : StoreRequestMsgData) (p : Nat) :
    Except DbFault (Depo × List NetEvent) := do
  let (r, localStore) ← self.netStore.localStore.Get req.Key
  let self := { self with netStore := { self.netStore with localStore := localStore } }
  match r with
  | .error _ => self.storeChunk fuel req p (NewChunk req.Key none)
  | .ok chunk =>
    if chunk.SData = none then
      -- only a request entry has the data checked against the key
      if self.hashfunc req.SData ≠ req.Key then pure (self, [])
      else self.storeChunk fuel req p chunk
    else pure (self, [])

/-- A key neither store holds: the handler stores a fresh chunk. -/
theorem Depo.HandleStoreRequestMsg_of_error {self : Depo} {fuel : Nat} {req : StoreRequestMsgData}
    {p : Nat} {err : StoreError}
    (hget : self.netStore.localStore.Get req.Key = .ok (.error err, self.netStore.localStore)) :
    self.HandleStoreRequestMsg fuel req p = self.storeChunk fuel req p (NewChunk req.Key none) := by
  simp only [Depo.HandleStoreRequestMsg, hget, except_ok_bind]

/-- `protoError(ErrDecode, ...)`. -/
inductive BzzError where
  | ErrDecode (message : String)
  deriving DecidableEq, Repr

/-- The `storeRequestMsg` case of `bzz.handle`, after the message decoded. -/
def handleStoreRequest (depo : Depo) (fuel : Nat) (req : StoreRequestMsgData) (p : Nat) :
    Except DbFault (Except BzzError (Depo × List NetEvent)) :=
  if req.SData.length < 9 then .ok (.error (.ErrDecode "Data too short"))
  else (depo.HandleStoreRequestMsg fuel req p).map .ok

/-- A store request for a key this node does not hold is stored and handed
on to the cloud's `Store` with the peer's data, whatever its hash; a `Get` of
the key then returns that data from the memory store. -/
theorem unverified_store_propagates (depo : Depo) (fuel : Nat) (req : StoreRequestMsgData) (p : Nat)
    (hlen : 9 ≤ req.SData.length) (hbad : depo.hashfunc req.SData ≠ req.Key)
    (hmem : depo.netStore.localStore.memStore.lookup req.Key = none)
    (hroom : depo.netStore.localStore.memStore.entryCnt < depo.netStore.localStore.memStore.capacity)
    (hdb : depo.netStore.localStore.DbStore.db.Get (getIndexKey req.Key) = .error .ErrNotFound)
    (hdbroom : depo.netStore.localStore.DbStore.entryCnt < depo.netStore.localStore.DbStore.capacity) :
    ∃ depo' chunk,
      handleStoreRequest depo fuel req p = .ok (.ok (depo', [.Store chunk])) ∧
      chunk.Key = req.Key ∧ chunk.SData = some req.SData ∧
      depo.hashfunc (chunk.SData.getD []) ≠ chunk.Key ∧
      ∃ ns, depo'.netStore.Get req.Key = .ok (chunk, ns, []) := by
  -- the lookup misses both stores, so the handler makes a fresh chunk
  have hget := LocalStore.Get_of_unknown hmem hdb
  let chunk : NetChunk := { NewChunk req.Key none with
    SData := some req.SData, Size := BigEndian.value (req.SData.take 8).reverse, Source := some p }
  obtain ⟨ns, hput, hnodes, hdbc⟩ :=
    @NetStore.Put_of_unknown depo.netStore fuel chunk rfl hroom hmem hdb hdbroom
  refine ⟨{ depo with netStore := ns }, chunk, ?_, rfl, rfl, hbad, ?_⟩
  · rw [handleStoreRequest, if_neg (not_lt.mpr hlen), Depo.HandleStoreRequestMsg_of_error hget]
    simp only [chunk] at hput
    simp only [Depo.storeChunk, hput, except_ok_bind]
    rfl
  · -- the new leaf heads the memory store, written at the current `dbAccessCnt`
    exact NetStore.Get_of_lookup (MemStore.lookup_of_head hnodes) (by simp [hdbc])

theorem unverified_store_propagates_sevenSeven :
    let dbStore : DbStore :=
      { db := LDBDatabase.empty, entryCnt := 0, accessCnt := 0, dataIdx := 0, capacity := 5,
        gcPos := none, gcStartPos := [], gcArray := [], hashfunc := List.take 2 }
    let depo : Depo :=
      { hashfunc := List.take 2,
        netStore := ⟨List.take 2, ⟨NewMemStore 5, dbStore⟩⟩ }
    let req : StoreRequestMsgData := ⟨[7, 7], [1, 2, 3, 4, 5, 6, 7, 8, 9]⟩
    9 ≤ req.SData.length ∧ depo.hashfunc req.SData ≠ req.Key ∧
      ∃ depo' chunk,
        handleStoreRequest depo 0 req 3 = .ok (.ok (depo', [.Store chunk])) ∧
        chunk.Key = req.Key ∧ chunk.SData = some req.SData ∧
        depo.hashfunc (chunk.SData.getD []) ≠ chunk.Key ∧
        ∃ ns, depo'.netStore.Get req.Key = .ok (chunk, ns, []) :=
  ⟨by decide, by decide,
    unverified_store_propagates _ 0 _ 3 (by decide) (by decide) rfl (by decide) rfl (by decide)⟩

end GoEthereum.Swarm
