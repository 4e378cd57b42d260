import GoEthereum.Swarm.Database
import GoEthereum.Data.BigEndian
import Mathlib

/-!
The queues of outgoing store requests of swarm's syncer
(`swarm/network/syncdb.go`), one `syncDb` for each peer and priority, over
one request database that all of them share. A request is kept under a key
of 42 bytes: `0x00`, `priorities - priority`, the peer's 32 bytes and the
big-endian counter of the queue; the counter itself is kept under a key
that starts with `0x01`. `dbRead` delivers the requests: each session opens
an iterator at its key and reads until the first key that does not start
with a zero byte, or, in batch mode, until it has read the count `bufferRead`
answered. The key is a buffer of 42 bytes that `copy(key, it.Key())`
overwrites, and the nil key of an exhausted iterator leaves it as it is.
-/

namespace GoEthereum.Swarm

/-- Go's `copy(dst, src)`: the first bytes of `dst`, as many as both have,
replaced by those of `src`. -/
def goCopy (dst src : List UInt8) : List UInt8 := src.take dst.length ++ dst.drop src.length

def priorities : Nat := 3

def counterKeyPrefix : UInt8 := 0x01

structure SyncDbEntry where
  key : List UInt8
  val : List UInt8
  deriving DecidableEq, Repr

/-- The fields of a `syncDb` that `dbRead` and `newSyncDbEntry` read. -/
structure SyncDb where
  start : List UInt8
  key : List UInt8
  counterKey : List UInt8
  priority : Nat
  db : LDBDatabase

/-- `newSyncDb`: the start of the queue's domain and its counter key. -/
def newSyncDb (db : LDBDatabase) (key : List UInt8) (priority : Nat) : SyncDb :=
  let start : List UInt8 := 0 :: (priorities.toUInt8 - priority.toUInt8) ::
    (goCopy (List.replicate 32 0) key ++ List.replicate 8 0)
  { start := start, key := key, counterKey := counterKeyPrefix :: (start.drop 1).take 33,
    priority := priority, db := db }

/-- The requests `newSyncDbEntry` takes; `generateId` gives the first two a
fresh id. -/
inductive SyncRequest where
  | key (key : List UInt8)
  | chunk (key : List UInt8)
  | storeRequest (key : List UInt8) (id : Nat)
  | entry (entry : SyncDbEntry)

/-- The entry of a request at `counter`: the queue's prefix and the counter,
and the request's key and id. -/
def SyncDb.newSyncDbEntry (self : SyncDb) (req : SyncRequest) (counter freshId : Nat) :
    SyncDbEntry :=
  let mk (key : List UInt8) (id : Nat) : SyncDbEntry :=
    ⟨self.start.take 34 ++ BigEndian.bytes 8 counter,
      (goCopy (List.replicate 40 0) key).take 32 ++ BigEndian.bytes 8 id⟩
  match req with
  | .key key => mk key freshId
  | .chunk key => mk key freshId
  | .storeRequest key id => mk key id
  | .entry entry => entry

/-- How the read loop of a session ends: stopped, with the key and the mode
of the next session, or still running when the fuel ran out. -/
inductive LoopEnd where
  | stop (key : List UInt8) (useBatches : Bool)
  | running
  deriving DecidableEq, Repr

/-- The inner loop of `dbRead`, `for n = 0; !useBatches || n < cnt; it.Next()`:
the deletions of the session, the entries passed to `deliver`, and how it
ended. -/
def readLoop (deliver : SyncDbEntry → Bool) (start : List UInt8) (useBatches : Bool) (cnt : Nat) :
    Nat → Iterator → List UInt8 → Nat → List BatchOp × List SyncDbEntry × LoopEnd
  | 0, _, _, _ => ([], [], .running)
  | fuel + 1, it, key, n =>
    if useBatches ∧ cnt ≤ n then ([], [], .stop key useBatches)
    else
      let key := goCopy key it.Key
      if key.length = 0 ∨ key.head? ≠ some 0 then ([], [], .stop (goCopy key start) true)
      else
        let entry : SyncDbEntry := ⟨key, goCopy (List.replicate 40 0) it.Value⟩
        if deliver entry then
          let (del, passed, e) := readLoop deliver start useBatches cnt fuel it.Next key (n + 1)
          (.delete key :: del, entry :: passed, e)
        else ([], [entry], .stop key useBatches)

/-- One session of `dbRead`: the iterator at `key`, the read loop and the
write of its deletions. -/
def session (deliver : SyncDbEntry → Bool) (start : List UInt8) (db : LDBDatabase)
    (key : List UInt8) (useBatches : Bool) (cnt fuel : Nat) :
    LDBDatabase × List SyncDbEntry × LoopEnd :=
  let it := db.NewIterator.Seek key
  if !it.Valid then (db, [], .stop (goCopy key start) true)
  else
    let (del, passed, e) := readLoop deliver start useBatches cnt fuel it key 0
    match e with
    | .running => (db, passed, .running)
    | .stop key useBatches => (db.Write del, passed, .stop key useBatches)

/-- What `bufferRead` does with a batch request: `quit` is closed first, or it
has written its batch and answers its count; `writes` are what the shared
database has been given since the last session. -/
inductive BatchAnswer where
  | quit
  | written (cnt : Nat) (writes : List BatchOp)

/-- A run of `dbRead`: the database, every entry passed to the delivery
function, and whether `dbRead` returned. -/
structure ReadRun where
  db : LDBDatabase
  passed : List SyncDbEntry
  returned : Bool

/-- The outer loop of `dbRead`, for at most `fuel` sessions. -/
def dbReadLoop (deliver : SyncDbEntry → Bool) (start : List UInt8) :
    Nat → List BatchAnswer → LDBDatabase → List UInt8 → Bool → Nat → ReadRun
  | 0, _, db, _, _, _ => ⟨db, [], false⟩
  | fuel + 1, answers, db, key, useBatches, cnt =>
    let next (answers : List BatchAnswer) (db : LDBDatabase) (cnt : Nat) : ReadRun :=
      let (db, passed, e) := session deliver start db key useBatches cnt fuel
      match e with
      | .running => ⟨db, passed, false⟩
      | .stop key useBatches =>
        let run := dbReadLoop deliver start fuel answers db key useBatches cnt
        ⟨run.db, passed ++ run.passed, run.returned⟩
    if useBatches then
      match answers with
      | [] => ⟨db, [], false⟩
      | .quit :: _ => ⟨db, [], true⟩
      | .written cnt writes :: answers =>
        if cnt = 0 then ⟨db.Write writes, [], true⟩ else next answers (db.Write writes) cnt
    else next answers db cnt

/-- `dbRead(useBatches, counter, fun)`: the key starts at the queue's start,
with the counter in its last eight bytes. -/
def SyncDb.dbRead (self : SyncDb) (useBatches : Bool) (counter : Nat)
    (deliver : SyncDbEntry → Bool) (answers : List BatchAnswer) (fuel : Nat) : ReadRun :=
  let key := goCopy (List.replicate 42 0) self.start
  let key := key.take 34 ++ BigEndian.bytes 8 counter
  dbReadLoop deliver self.start fuel answers self.db key useBatches 0

/-! ## The key buffer -/

@[simp] theorem length_goCopy (dst src : List UInt8) : (goCopy dst src).length = dst.length := by
  simp only [goCopy, List.length_append, List.length_take, List.length_drop]
  omega

theorem goCopy_of_length {dst src : List UInt8} (h : src.length = dst.length) :
    goCopy dst src = src := by
  simp [goCopy, h]

@[simp] theorem goCopy_nil (dst : List UInt8) : goCopy dst [] = dst := by
  simp [goCopy]

theorem head?_goCopy {dst src : List UInt8} (hdst : dst ≠ []) (hsrc : src ≠ []) :
    (goCopy dst src).head? = src.head? := by
  obtain ⟨d, ds, rfl⟩ := List.exists_cons_of_ne_nil hdst
  obtain ⟨b, bs, rfl⟩ := List.exists_cons_of_ne_nil hsrc
  simp [goCopy]

/-! ## Replay -/

section Replay

variable {start : List UInt8} {cnt : Nat}

/-- In replay mode, with a delivery that takes every entry, the read loop
passes on and deletes each entry up to the first key that does not start
with a zero byte, whichever queue the entries belong to, and stops at `start`.
The induction is on the entries the iterator walks, with the key buffer
holding the last of them. -/
theorem readLoop_replay (hstart : start.length = 42) :
    ∀ (es : List (List UInt8 × List UInt8)) (it : Iterator) (key : List UInt8) (n fuel : Nat)
      (k v : List UInt8) (rest : List (List UInt8 × List UInt8)),
      it.rest = es ++ (k, v) :: rest → (∀ e ∈ es, e.1.length = 42 ∧ e.1.head? = some 0) →
      k ≠ [] → k.head? ≠ some 0 → key.length = 42 → es.length < fuel →
      readLoop (fun _ => true) start false cnt fuel it key n =
        (es.map fun e => .delete e.1,
          es.map fun e => ⟨e.1, goCopy (List.replicate 40 0) e.2⟩, .stop start true) := by
  intro es
  induction es with
  | nil =>
    intro it key n fuel k v rest hit _ hk hk0 hkey hfuel
    obtain ⟨f, rfl⟩ := Nat.exists_eq_add_of_lt hfuel
    have hhead : (goCopy key k).head? ≠ some 0 := by
      rw [head?_goCopy (List.ne_nil_of_length_pos (by omega)) hk]
      exact hk0
    have hcopy : goCopy (goCopy key k) start = start := goCopy_of_length (by simp [hkey, hstart])
    simp [readLoop, Iterator.Key_of_rest hit, hhead, hcopy]
  | cons e es ih =>
    intro it key n fuel k v rest hit hes hk hk0 hkey hfuel
    rw [List.length_cons] at hfuel
    obtain ⟨f, rfl⟩ : ∃ f, fuel = f + 1 := ⟨fuel - 1, by omega⟩
    have he := hes e List.mem_cons_self
    have hcopy : goCopy key e.1 = e.1 := goCopy_of_length (by rw [he.1, hkey])
    have hnext := ih it.Next e.1 (n + 1) f k v rest (by simp [hit])
      (fun e' he' => hes e' (List.mem_cons_of_mem _ he')) hk hk0 he.1 (by omega)
    obtain ⟨ek, ev⟩ := e
    simp only at hcopy he hnext
    have hne : ek ≠ [] := List.ne_nil_of_length_pos (by omega)
    simp [readLoop, Iterator.Key_of_rest hit, Iterator.Value_of_rest hit, hcopy, he.2, hne, hnext]

/-- In replay mode the read loop never stops once the iterator has passed
every key, all with a zero leading byte: the nil key leaves the buffer at the
last entry, which is passed on again on every round. -/
theorem readLoop_off_end :
    ∀ (fuel : Nat) (es : List (List UInt8 × List UInt8)) (it : Iterator) (key : List UInt8)
      (n : Nat), it.rest = es → (∀ e ∈ es, e.1.length = 42 ∧ e.1.head? = some 0) →
      key.length = 42 → key.head? = some 0 →
      (readLoop (fun _ => true) start false cnt fuel it key n).2.2 = .running := by
  intro fuel
  induction fuel with
  | zero => intros; rfl
  | succ f ih =>
    intro es it key n hit hes hkey hkey0
    cases es with
    | nil =>
      have hnext := ih [] it.Next key (n + 1) (by simp [hit]) (by simp) hkey hkey0
      have hlen : key.length ≠ 0 := by omega
      simp [readLoop, Iterator.Key_of_rest_nil hit, hkey0, hlen, hnext]
    | cons e es =>
      have he := hes e List.mem_cons_self
      have hcopy : goCopy key e.1 = e.1 := goCopy_of_length (by rw [he.1, hkey])
      have hnext := ih es it.Next e.1 (n + 1) (by simp [hit])
        (fun e' he' => hes e' (List.mem_cons_of_mem _ he')) he.1 he.2
      obtain ⟨ek, ev⟩ := e
      simp only at hcopy he hnext
      have hlen : ek.length ≠ 0 := by omega
      simp [readLoop, Iterator.Key_of_rest hit, hcopy, he.2, hlen, hnext]

/-- A replay session over a database whose entries from the key on are `es`
and then a key with another leading byte. -/
theorem session_replay (hstart : start.length = 42) {db : LDBDatabase} {key : List UInt8}
    {es : List (List UInt8 × List UInt8)} {k v : List UInt8} {rest : List (List UInt8 × List UInt8)}
    (hseek : db.db.seek key = es ++ (k, v) :: rest)
    (hes : ∀ e ∈ es, e.1.length = 42 ∧ e.1.head? = some 0) (hk : k ≠ []) (hk0 : k.head? ≠ some 0)
    (hkey : key.length = 42) {fuel : Nat} (hfuel : es.length < fuel) :
    session (fun _ => true) start db key false cnt fuel =
      (db.Write (es.map fun e => .delete e.1),
        es.map (fun e => ⟨e.1, goCopy (List.replicate 40 0) e.2⟩), .stop start true) := by
  have hrest : (db.NewIterator.Seek key).rest = es ++ (k, v) :: rest := hseek
  have hvalid : (db.NewIterator.Seek key).Valid = true := by
    rw [Iterator.Valid_iff, hrest]
    simp
  simp [session, hvalid,
    readLoop_replay hstart es _ key 0 fuel k v rest hrest hes hk hk0 hkey hfuel]

/-- A replay session over entries that all have a zero leading byte, with
no other key after them, does not end. -/
theorem session_off_end {db : LDBDatabase} {key : List UInt8}
    {es : List (List UInt8 × List UInt8)} (hseek : db.db.seek key = es) (hne : es ≠ [])
    (hes : ∀ e ∈ es, e.1.length = 42 ∧ e.1.head? = some 0) (hkey : key.length = 42)
    (hkey0 : key.head? = some 0) (fuel : Nat) :
    (session (fun _ => true) start db key false cnt fuel).2.2 = .running := by
  have hrest : (db.NewIterator.Seek key).rest = es := hseek
  have hvalid : (db.NewIterator.Seek key).Valid = true := by
    rw [Iterator.Valid_iff, hrest]
    exact hne
  rcases hr : readLoop (fun _ => true) start false cnt fuel (db.NewIterator.Seek key) key 0 with
    ⟨del, passed, e⟩
  have he : e = .running := by
    have := @readLoop_off_end start cnt fuel es _ key 0 hrest hes hkey hkey0
    rw [hr] at this
    exact this
  simp [session, hvalid, hr, he]

end Replay

/-! ## The keys of the queues -/

section Keys

variable (db : LDBDatabase) (key : List UInt8) (priority : Nat)

theorem length_start_newSyncDb : (newSyncDb db key priority).start.length = 42 := by
  simp [newSyncDb]

/-- With counter 0 `dbRead` starts at the queue's start. -/
theorem dbRead_key_zero :
    (goCopy (List.replicate 42 0) (newSyncDb db key priority).start).take 34 ++
      BigEndian.bytes 8 0 = (newSyncDb db key priority).start := by
  have hz : BigEndian.bytes 8 0 = List.replicate 8 0 := by decide
  rw [goCopy_of_length (by simp [newSyncDb]), hz]
  simp [newSyncDb]

/-- An entry of a request: the queue's two bytes, the peer's 32 and the
counter. -/
theorem key_newSyncDbEntry (k : List UInt8) (id counter freshId : Nat) :
    ((newSyncDb db key priority).newSyncDbEntry (.storeRequest k id) counter freshId).key =
      0 :: (priorities.toUInt8 - priority.toUInt8) ::
        (goCopy (List.replicate 32 0) key ++ BigEndian.bytes 8 counter) := by
  simp [newSyncDb, SyncDb.newSyncDbEntry]

theorem length_val_newSyncDbEntry (k : List UInt8) (id counter freshId : Nat) :
    ((newSyncDb db key priority).newSyncDbEntry (.storeRequest k id) counter freshId).val.length =
      40 := by
  simp [SyncDb.newSyncDbEntry]

/-- A queue's start lies below every key of the domain of a lower
priority, whatever the peer. -/
theorem start_lt_of_priority {q : Nat} (hq : q < priority) (hp : priority < priorities)
    (rest : List UInt8) :
    (newSyncDb db key priority).start < 0 :: (priorities.toUInt8 - q.toUInt8) :: rest := by
  have hprio : priorities.toUInt8 - priority.toUInt8 < priorities.toUInt8 - q.toUInt8 := by
    simp only [priorities] at hp ⊢
    interval_cases priority <;> interval_cases q <;> decide
  rw [newSyncDb, List.cons_lt_cons_iff]
  exact .inr ⟨rfl, List.cons_lt_cons_iff.mpr (.inl hprio)⟩

/-- The keys of requests lie below every counter key. -/
theorem entry_lt_counterKey (rest : List UInt8) (key' : List UInt8) (priority' : Nat) :
    (0 :: rest : List UInt8) < (newSyncDb db key' priority').counterKey := by
  rw [newSyncDb, List.cons_lt_cons_iff]
  exact .inl (by decide)

end Keys

/-- The replay of a queue, as `syncer.sync` starts it, takes the request of
another queue. The shared database holds a request of the queue of `other`
at priority `q`, and that queue's counter key. The queue of `peer` at a
higher priority `p` replays its backlog with a delivery that takes every
entry: its `dbRead` passes the other queue's entry to its own delivery,
deletes it from the database, and returns once `bufferRead` answers its batch
request with an empty batch. -/
theorem replay_takes_other_queue (peer other key : List UInt8) (p q counter id : Nat)
    (hq : q < p) (hp : p < priorities) (cv : List UInt8) (fuel : Nat) (hfuel : 3 ≤ fuel) :
    let B := newSyncDb LDBDatabase.empty other q
    let e := B.newSyncDbEntry (.storeRequest key id) counter 0
    let run := (newSyncDb ((LDBDatabase.empty.Put e.key e.val).Put B.counterKey cv) peer p).dbRead
      false 0 (fun _ => true) [.written 0 []] fuel
    run.returned = true ∧ run.passed = [e] ∧ run.db.Get e.key = .error .ErrNotFound := by
  intro B e run
  simp only [run, SyncDb.dbRead, dbRead_key_zero]
  obtain ⟨g, rfl⟩ : ∃ g, fuel = g + 3 := ⟨fuel - 3, by omega⟩
  set db := (LDBDatabase.empty.Put e.key e.val).Put B.counterKey cv with hdb
  have hek : e.key = 0 :: (priorities.toUInt8 - q.toUInt8) ::
      (goCopy (List.replicate 32 0) other ++ BigEndian.bytes 8 counter) :=
    key_newSyncDbEntry LDBDatabase.empty other q key id counter 0
  -- the entry of the other queue lies after the start, and its counter key after it
  have hlt₁ : (newSyncDb db peer p).start < e.key := by
    rw [hek]
    exact start_lt_of_priority db peer p hq hp _
  have hlt₂ : e.key < B.counterKey := by
    rw [hek]
    exact entry_lt_counterKey LDBDatabase.empty _ other q
  have hentries : db.db.entries = [(e.key, e.val), (B.counterKey, cv)] := by
    simp [hdb, LDBDatabase.Put, LDBDatabase.empty, SortedStore.Store.empty, SortedStore.Store.put,
      SortedStore.insert, not_lt.mpr (le_of_lt hlt₂), ne_of_gt hlt₂]
  have hseek : db.db.seek (newSyncDb db peer p).start =
      [(e.key, e.val)] ++ (B.counterKey, cv) :: [] := by
    simp [SortedStore.Store.seek, hentries, le_of_lt hlt₁, le_of_lt (hlt₁.trans hlt₂)]
  have hes : ∀ x ∈ [(e.key, e.val)], x.1.length = 42 ∧ x.1.head? = some 0 := by
    simp [hek]
  have hsession := @session_replay (newSyncDb db peer p).start 0 (length_start_newSyncDb _ _ _)
    _ _ _ _ _ _ hseek hes (by simp [B, newSyncDb]) (by simp [B, newSyncDb, counterKeyPrefix])
    (length_start_newSyncDb _ _ _) _ (show 1 < g + 2 by omega)
  have heval : e.val.length = 40 :=
    length_val_newSyncDbEntry LDBDatabase.empty other q key id counter 0
  have hval : goCopy (List.replicate 40 0) e.val = e.val := goCopy_of_length (by simp [heval])
  have hdb' : (newSyncDb db peer p).db = db := rfl
  rw [hdb']
  simp only [dbReadLoop, hsession]
  simp only [List.map_cons, List.map_nil, hval]
  simp

theorem replay_takes_other_queue_highLow :
    0 < 2 ∧ 2 < priorities ∧ 3 ≤ 3 ∧
      let B := newSyncDb LDBDatabase.empty [9] 0
      let e := B.newSyncDbEntry (.storeRequest [7] 0) 0 0
      let run := (newSyncDb ((LDBDatabase.empty.Put e.key e.val).Put B.counterKey [1]) [5] 2).dbRead
        false 0 (fun _ => true) [.written 0 []] 3
      run.returned = true ∧ run.passed = [e] ∧ run.db.Get e.key = .error .ErrNotFound :=
  ⟨by decide, by decide, le_refl 3,
    replay_takes_other_queue [5] [9] [7] 2 0 0 0 (by decide) (by decide) [1] 3 (le_refl 3)⟩

/-- The replay of a queue never returns when the database holds requests
from its start on and no key with another leading byte after them, as when
no queue has persisted its counter yet. -/
theorem dbRead_replay_never_returns (db : LDBDatabase) (key : List UInt8) (priority : Nat)
    (es : List (List UInt8 × List UInt8)) (hseek : db.db.seek (newSyncDb db key priority).start = es)
    (hne : es ≠ []) (hes : ∀ e ∈ es, e.1.length = 42 ∧ e.1.head? = some 0)
    (answers : List BatchAnswer) (fuel : Nat) :
    ((newSyncDb db key priority).dbRead false 0 (fun _ => true) answers fuel).returned = false := by
  cases fuel with
  | zero => rfl
  | succ f =>
    simp only [SyncDb.dbRead, dbRead_key_zero]
    rcases hs : session (fun _ => true) (newSyncDb db key priority).start db
      (newSyncDb db key priority).start false 0 f with ⟨db', passed, e⟩
    have he : e = .running := by
      have := @session_off_end (newSyncDb db key priority).start 0 _ _ _ hseek hne hes
        (length_start_newSyncDb db key priority) rfl f
      rw [hs] at this
      exact this
    have hdb : (newSyncDb db key priority).db = db := rfl
    simp [dbReadLoop, hdb, hs, he]

end GoEthereum.Swarm
