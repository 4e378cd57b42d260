import GoEthereum.Core.DatabaseUtil
import GoEthereum.Data.StateM
import Mathlib.Tactic.Set

/-!
The header chain of `core/headerchain.go`: `WriteHeader`, which stores a
header with its total difficulty and, when that beats the head's, re-routes
the canonical number index onto it, and `SetHead`, which rewinds the head.

The state is the database and the fields of `HeaderChain` the two methods
use. The LRU caches in front of the header and total difficulty tables are
transparent: they are keyed by hash, a hash fixes the header's number, and
`SetHead` purges them after its deletions, so every read they answer is the
read of the database. The random tie-break `mrand.Float64() < 0.5` is the
`coin` argument of `WriteHeader`. The two loops of `WriteHeader` and the
first loop of `SetHead` have no bound in the source; here each may check its
condition `fuel` times and reports `Panic.outOfFuel` beyond that, a limit of
the model and not a behaviour of the code.
-/

namespace GoEthereum.Core

open GoEthereum.StateM

/-- How a call ends when it does not return. -/
inductive Panic where
  /-- A nil `*types.Header` or `*big.Int` was dereferenced. -/
  | nilDereference
  /-- A loop checked its condition more often than the model allows. -/
  | outOfFuel
  deriving DecidableEq, Repr

/-- `WriteStatus` of `core/blockchain.go`. -/
inductive WriteStatus where
  | NonStatTy
  | CanonStatTy
  | SideStatTy
  deriving DecidableEq, Repr

/-- The errors the chain returns. -/
inductive ChainError where
  /-- `ParentError(hash)`: the total difficulty of the parent is unknown. -/
  | ParentError (hash : Hash)
  deriving DecidableEq, Repr

/-- The fields of `HeaderChain` that `WriteHeader` and `SetHead` use. The
current header is never nil between calls: `SetHead` falls back to the
genesis header. -/
structure HeaderChain where
  chainDb : ChainDb
  genesisHeader : Header
  currentHeader : Header
  currentHeaderHash : Hash

abbrev ChainM := EStateM Panic HeaderChain

namespace HeaderChain

/-- The header chain over the database `WriteGenesisBlock` leaves:
`NewHeaderChain` reads the genesis header back as canonical number zero and
makes it the current header. -/
@[simp] def ofGenesis (g : Header) : HeaderChain where
  chainDb := ChainDb.genesis g
  genesisHeader := g
  currentHeader := g
  currentHeaderHash := g.Hash

/-- A write to the database. -/
def modifyDb (f : ChainDb → ChainDb) : ChainM PUnit :=
  modify fun hc => { hc with chainDb := f hc.chainDb }

/-- The first loop of the re-route, `for i := number + 1; ; i++`: delete the
canonical numbers from `i` on, up to the first one that is empty. -/
def deleteCanonicalFrom : Nat → UInt64 → ChainM PUnit
  | 0, _ => throw .outOfFuel
  | fuel + 1, i => do
    let hc ← get
    if hc.chainDb.GetCanonicalHash i = 0 then
      pure ⟨⟩
    else
      modifyDb (·.DeleteCanonicalHash i)
      deleteCanonicalFrom fuel (i + 1)

/-- The second loop of the re-route: walk back from the new header's parent,
writing each ancestor as canonical, until the index already holds it.
`headHeader` is what `GetHeader(headHash, headNumber)` returned; reading its
`ParentHash` when it is nil is the source's nil dereference. -/
def rewriteCanonical : Nat → Hash → UInt64 → Option Header → ChainM PUnit
  | 0, _, _, _ => throw .outOfFuel
  | fuel + 1, headHash, headNumber, headHeader => do
    let hc ← get
    if hc.chainDb.GetCanonicalHash headNumber = headHash then
      pure ⟨⟩
    else
      modifyDb (·.WriteCanonicalHash headHash headNumber)
      match headHeader with
      | none => throw .nilDereference
      | some h => do
        let hc ← get
        rewriteCanonical fuel h.ParentHash (h.Number - 1)
          (hc.chainDb.GetHeader h.ParentHash (h.Number - 1))

/-- The branch of `WriteHeader` that makes `header` the head. -/
def rerouteCanonical (header : Header) (fuel : Nat) : ChainM PUnit := do
  deleteCanonicalFrom fuel (header.Number + 1)
  let hc ← get
  rewriteCanonical fuel header.ParentHash (header.Number - 1)
    (hc.chainDb.GetHeader header.ParentHash (header.Number - 1))
  modifyDb fun db =>
    (db.WriteCanonicalHash header.Hash header.Number).WriteHeadHeaderHash header.Hash
  modify fun hc => { hc with currentHeaderHash := header.Hash, currentHeader := header }

/-- `HeaderChain.WriteHeader`. A missing total difficulty of the current head
is dereferenced by `externTd.Cmp(localTd)`, after the writes. -/
def WriteHeader (header : Header) (coin : Bool) (fuel : Nat) :
    ChainM (WriteStatus × Option ChainError) := do
  let hc ← get
  match hc.chainDb.GetTd header.ParentHash (header.Number - 1) with
  | none => pure (.NonStatTy, some (.ParentError header.ParentHash))
  | some ptd =>
    let localTd := hc.chainDb.GetTd hc.currentHeaderHash hc.currentHeader.Number
    let externTd := header.Difficulty + ptd
    modifyDb fun db => (db.WriteTd header.Hash header.Number externTd).WriteHeader header
    match localTd with
    | none => throw .nilDereference
    | some localTd =>
      if localTd < externTd ∨ (externTd = localTd ∧ coin = true) then do
        rerouteCanonical header fuel
        pure (.CanonStatTy, none)
      else
        pure (.SideStatTy, none)

/-- The first loop of `SetHead`: while the current header is above `head`,
delete it and its total difficulty and step to its parent. It returns the
header the loop stops at, nil if a parent was missing. -/
def rewindHeaders (head : UInt64) : Nat → Option Header → ChainM (Option Header)
  | 0, _ => throw .outOfFuel
  | _ + 1, none => pure none
  | fuel + 1, some h =>
    if head < h.Number then do
      modifyDb fun db => (db.DeleteHeader h.Hash h.Number).DeleteTd h.Hash h.Number
      let hc ← get
      rewindHeaders head fuel (hc.chainDb.GetHeader h.ParentHash (h.Number - 1))
    else
      pure (some h)

/-- `for i := height; i > head; i--`, which runs `height - head` times. -/
def deleteCanonicalDown (db : ChainDb) (i : UInt64) : Nat → ChainDb
  | 0 => db
  | k + 1 => deleteCanonicalDown (db.DeleteCanonicalHash i) (i - 1) k

/-- `HeaderChain.SetHead` with no delete callback, as the header chain alone
calls it. -/
def SetHead (head : UInt64) (fuel : Nat) : ChainM PUnit := do
  let hc ← get
  let height := hc.currentHeader.Number
  let cur ← rewindHeaders head fuel (some hc.currentHeader)
  modifyDb fun db => deleteCanonicalDown db height (height.toNat - head.toNat)
  let newHead := cur.getD hc.genesisHeader
  modify fun hc => { hc with currentHeader := newHead, currentHeaderHash := newHead.Hash }
  modifyDb (·.WriteHeadHeaderHash newHead.Hash)

/-- The calls a user of the header chain makes. -/
inductive Action where
  | writeHeader (header : Header) (coin : Bool)
  | setHead (head : UInt64)

def Action.exec (fuel : Nat) : Action → ChainM PUnit
  | .writeHeader header coin => do
    let _ ← WriteHeader header coin fuel
    pure ⟨⟩
  | .setHead head => SetHead head fuel

/-- A sequence of calls, run one after the other. -/
def run (fuel : Nat) : List Action → ChainM PUnit
  | [] => pure ⟨⟩
  | a :: as => do
    a.exec fuel
    run fuel as

/-! ### One lemma per step of the two methods -/

section Steps

variable {hc hc' s : HeaderChain} {fuel : Nat} {header p : Header} {coin : Bool}
  {ptd localTd : Int} {i n head : UInt64} {headHash : Hash} {headHeader : Option Header}
  {cur : Option Header}

@[simp] theorem modifyDb_apply (f : ChainDb → ChainDb) (hc : HeaderChain) :
    modifyDb f hc = .ok ⟨⟩ { hc with chainDb := f hc.chainDb } := rfl

/-- The state `WriteHeader` leaves before it compares: the header and its
total difficulty `td` stored. -/
@[simp] def withHeader (hc : HeaderChain) (header : Header) (td : Int) : HeaderChain :=
  { hc with chainDb := (hc.chainDb.WriteTd header.Hash header.Number td).WriteHeader header }

/-- The last two steps of the re-route: `header` written as canonical and as
the head, in the database and in the chain's own fields. -/
@[simp] def withHead (hc : HeaderChain) (header : Header) : HeaderChain :=
  { hc with
    chainDb := (hc.chainDb.WriteCanonicalHash header.Hash header.Number).WriteHeadHeaderHash
      header.Hash
    currentHeaderHash := header.Hash
    currentHeader := header }

theorem deleteCanonicalFrom_of_empty (h : hc.chainDb.canonical i = 0) :
    deleteCanonicalFrom (fuel + 1) i hc = .ok ⟨⟩ hc := by
  simp [deleteCanonicalFrom, bind_apply, h]

theorem rewriteCanonical_of_canonical (h : hc.chainDb.canonical n = headHash) :
    rewriteCanonical (fuel + 1) headHash n headHeader hc = .ok ⟨⟩ hc := by
  simp [rewriteCanonical, bind_apply, h]

theorem rewriteCanonical_step (h : hc.chainDb.canonical n ≠ headHash) :
    rewriteCanonical (fuel + 1) headHash n (some p) hc =
      rewriteCanonical fuel p.ParentHash (p.Number - 1)
        (hc.chainDb.GetHeader p.ParentHash (p.Number - 1))
        { hc with chainDb := hc.chainDb.WriteCanonicalHash headHash n } := by
  simp [rewriteCanonical, bind_apply, h]

/-- The walk reaches an ancestor that is neither canonical nor stored: it
writes it as canonical and then dereferences the missing header. -/
theorem rewriteCanonical_nil (h : hc.chainDb.canonical n ≠ headHash) :
    rewriteCanonical (fuel + 1) headHash n none hc =
      .error .nilDereference { hc with chainDb := hc.chainDb.WriteCanonicalHash headHash n } := by
  simp [rewriteCanonical, bind_apply, h]

/-- A header extending the head's canonical chain is made the head without
touching any other canonical number. -/
theorem rerouteCanonical_extend
    (habove : hc.chainDb.canonical (header.Number + 1) = 0)
    (hparent : hc.chainDb.canonical (header.Number - 1) = header.ParentHash) :
    rerouteCanonical header (fuel + 1) hc = .ok ⟨⟩ (hc.withHead header) := by
  simp only [rerouteCanonical, bind_apply, deleteCanonicalFrom_of_empty habove, get_apply,
    rewriteCanonical_of_canonical hparent, modifyDb_apply, modify_apply]
  rfl

theorem writeHeader_parentError
    (hp : hc.chainDb.GetTd header.ParentHash (header.Number - 1) = none) :
    WriteHeader header coin fuel hc =
      .ok (.NonStatTy, some (.ParentError header.ParentHash)) hc := by
  simp only [WriteHeader, bind_apply, get_apply, hp, pure_apply]

theorem writeHeader_side
    (hp : hc.chainDb.GetTd header.ParentHash (header.Number - 1) = some ptd)
    (hl : hc.chainDb.GetTd hc.currentHeaderHash hc.currentHeader.Number = some localTd)
    (hside : ¬(localTd < header.Difficulty + ptd ∨
      (header.Difficulty + ptd = localTd ∧ coin = true))) :
    WriteHeader header coin fuel hc =
      .ok (.SideStatTy, none) (hc.withHeader header (header.Difficulty + ptd)) := by
  simp only [WriteHeader, bind_apply, get_apply, hp, hl, modifyDb_apply, if_neg hside, pure_apply]
  rfl

theorem writeHeader_canon
    (hp : hc.chainDb.GetTd header.ParentHash (header.Number - 1) = some ptd)
    (hl : hc.chainDb.GetTd hc.currentHeaderHash hc.currentHeader.Number = some localTd)
    (hcanon : localTd < header.Difficulty + ptd ∨
      (header.Difficulty + ptd = localTd ∧ coin = true)) :
    WriteHeader header coin fuel hc =
      (rerouteCanonical header fuel >>= fun _ => pure (.CanonStatTy, none))
        (hc.withHeader header (header.Difficulty + ptd)) := by
  simp only [WriteHeader, bind_apply, get_apply, hp, hl, modifyDb_apply, if_pos hcanon]
  rfl

theorem writeHeader_no_localTd
    (hp : hc.chainDb.GetTd header.ParentHash (header.Number - 1) = some ptd)
    (hl : hc.chainDb.GetTd hc.currentHeaderHash hc.currentHeader.Number = none) :
    WriteHeader header coin fuel hc =
      .error .nilDereference (hc.withHeader header (header.Difficulty + ptd)) := by
  simp only [WriteHeader, bind_apply, get_apply, hp, hl, modifyDb_apply, throw_apply]
  rfl

theorem rewindHeaders_stop (h : ¬head < p.Number) :
    rewindHeaders head (fuel + 1) (some p) hc = .ok (some p) hc := by
  simp [rewindHeaders, h]

theorem rewindHeaders_step (h : head < p.Number) :
    rewindHeaders head (fuel + 1) (some p) hc =
      rewindHeaders head fuel
        ((hc.chainDb.DeleteHeader p.Hash p.Number).GetHeader p.ParentHash (p.Number - 1))
        { hc with
          chainDb := (hc.chainDb.DeleteHeader p.Hash p.Number).DeleteTd p.Hash p.Number } := by
  simp only [rewindHeaders, if_pos h, bind_apply, modifyDb_apply, get_apply]
  rfl

theorem rerouteCanonical_of_walk_error {e : Panic}
    (habove : hc.chainDb.canonical (header.Number + 1) = 0)
    (hwalk : rewriteCanonical (fuel + 1) header.ParentHash (header.Number - 1)
      (hc.chainDb.GetHeader header.ParentHash (header.Number - 1)) hc = .error e s) :
    rerouteCanonical header (fuel + 1) hc = .error e s := by
  simp only [rerouteCanonical, bind_apply, deleteCanonicalFrom_of_empty habove, get_apply, hwalk]

/-- The re-route of a header whose parent `p` is stored but not canonical and
whose grandparent is neither: the walk writes `p` as canonical, steps to the
missing grandparent, writes its hash as canonical and dereferences it. -/
theorem rerouteCanonical_orphan_panics
    (habove : hc.chainDb.canonical (header.Number + 1) = 0)
    (hparent : hc.chainDb.GetHeader header.ParentHash (header.Number - 1) = some p)
    (hpn : p.Number = header.Number - 1)
    (hpc : hc.chainDb.canonical (header.Number - 1) ≠ header.ParentHash)
    (hgrand : hc.chainDb.GetHeader p.ParentHash (p.Number - 1) = none)
    (hgc : hc.chainDb.canonical (p.Number - 1) ≠ p.ParentHash) :
    rerouteCanonical header (fuel + 2) hc = .error .nilDereference
      { hc with chainDb := (hc.chainDb.WriteCanonicalHash header.ParentHash
        (header.Number - 1)).WriteCanonicalHash p.ParentHash (p.Number - 1) } := by
  have hne : p.Number - 1 ≠ header.Number - 1 := by rw [hpn]; grind
  apply rerouteCanonical_of_walk_error habove
  rw [hparent, rewriteCanonical_step hpc, hgrand, rewriteCanonical_nil]
  simp [Function.update_of_ne hne, hgc]

/-- `WriteHeader` of a header heavier than the head, whose parent is a stored
side header with a missing parent of its own, panics. -/
theorem writeHeader_orphan_panics
    (hp : hc.chainDb.GetTd header.ParentHash (header.Number - 1) = some ptd)
    (hl : hc.chainDb.GetTd hc.currentHeaderHash hc.currentHeader.Number = some localTd)
    (hheavier : localTd < header.Difficulty + ptd)
    (habove : hc.chainDb.canonical (header.Number + 1) = 0)
    (hparent : hc.chainDb.GetHeader header.ParentHash (header.Number - 1) = some p)
    (hpn : p.Number = header.Number - 1)
    (hpc : hc.chainDb.canonical (header.Number - 1) ≠ header.ParentHash)
    (hgrand : hc.chainDb.GetHeader p.ParentHash (p.Number - 1) = none)
    (hgc : hc.chainDb.canonical (p.Number - 1) ≠ p.ParentHash) :
    ∃ s, WriteHeader header coin (fuel + 2) hc = .error .nilDereference s := by
  have hne₁ : header.Number - 1 ≠ header.Number := by grind
  have hne₂ : p.Number - 1 ≠ header.Number := by rw [hpn]; grind
  -- the re-route runs after the header is stored, which the walk's reads do not see
  obtain ⟨s, hs⟩ : ∃ s, rerouteCanonical header (fuel + 2)
      (hc.withHeader header (header.Difficulty + ptd)) = .error .nilDereference s :=
    ⟨_, rerouteCanonical_orphan_panics habove (by simpa [withHeader, hne₁] using hparent) hpn
      hpc (by simpa [withHeader, hne₂] using hgrand) hgc⟩
  exact ⟨s, by rw [writeHeader_canon hp hl (.inl hheavier), bind_of_error hs]⟩

/-- What `SetHead` leaves once its rewind loop has stopped at `cur`. -/
theorem setHead_of_rewind (h : rewindHeaders head fuel (some hc.currentHeader) hc = .ok cur s) :
    SetHead head fuel hc = .ok ⟨⟩
      { s with
        chainDb := (deleteCanonicalDown s.chainDb hc.currentHeader.Number
          (hc.currentHeader.Number.toNat - head.toNat)).WriteHeadHeaderHash
            (cur.getD hc.genesisHeader).Hash
        currentHeader := cur.getD hc.genesisHeader
        currentHeaderHash := (cur.getD hc.genesisHeader).Hash } := by
  simp only [SetHead, bind_apply, get_apply, h, modifyDb_apply, modify_apply]

/-- A header heavier than the head that extends the head's canonical chain
becomes the head, and no other canonical number changes. -/
theorem writeHeader_extend
    (hp : hc.chainDb.GetTd header.ParentHash (header.Number - 1) = some ptd)
    (hl : hc.chainDb.GetTd hc.currentHeaderHash hc.currentHeader.Number = some localTd)
    (hcanon : localTd < header.Difficulty + ptd ∨
      (header.Difficulty + ptd = localTd ∧ coin = true))
    (habove : hc.chainDb.canonical (header.Number + 1) = 0)
    (hparent : hc.chainDb.canonical (header.Number - 1) = header.ParentHash) :
    WriteHeader header coin (fuel + 1) hc =
      .ok (.CanonStatTy, none)
        ((hc.withHeader header (header.Difficulty + ptd)).withHead header) := by
  have hreroute :
      rerouteCanonical header (fuel + 1) (hc.withHeader header (header.Difficulty + ptd)) =
      .ok ⟨⟩ ((hc.withHeader header (header.Difficulty + ptd)).withHead header) :=
    rerouteCanonical_extend habove hparent
  rw [writeHeader_canon hp hl hcanon, bind_apply, hreroute]
  rfl

theorem run_cons_of_ok {a : Action} {as : List Action} (h : a.exec fuel hc = .ok ⟨⟩ hc') :
    run fuel (a :: as) hc = run fuel as hc' := by
  simp only [run, bind_of_ok h]

theorem exec_writeHeader {r : WriteStatus × Option ChainError}
    (h : WriteHeader header coin fuel hc = .ok r hc') :
    (Action.writeHeader header coin).exec fuel hc = .ok ⟨⟩ hc' := by
  simp only [Action.exec, bind_of_ok h, pure_apply]

theorem run_writeHeader_error {e : Panic} (h : WriteHeader header coin fuel hc = .error e hc') :
    run fuel [Action.writeHeader header coin] hc = .error e hc' := by
  simp only [run, Action.exec, bind_apply, h]

end Steps

/-! ### What a run keeps -/

section Invariants

variable {hc hc' : HeaderChain} {fuel : Nat} {header : Header} {coin : Bool} {i n head : UInt64}
  {headHash : Hash} {headHeader : Option Header} {ptd : Int} {u : PUnit}
  {r : WriteStatus × Option ChainError} {err : Option ChainError}

theorem keeps_modifyDb {P : HeaderChain → Prop} {f : ChainDb → ChainDb}
    (hf : ∀ hc, P hc → P { hc with chainDb := f hc.chainDb }) : Keeps P (modifyDb f) :=
  keeps_modify hf

/-- What `WriteHeader` can do when it returns: report a missing parent and
change nothing, or store the header and then either leave the head or
re-route the canonical index onto it. -/
theorem writeHeader_ok (h : WriteHeader header coin fuel hc = .ok r hc') :
    (hc.chainDb.GetTd header.ParentHash (header.Number - 1) = none ∧
      r = (.NonStatTy, some (.ParentError header.ParentHash)) ∧ hc' = hc) ∨
    ∃ ptd localTd, hc.chainDb.GetTd header.ParentHash (header.Number - 1) = some ptd ∧
      hc.chainDb.GetTd hc.currentHeaderHash hc.currentHeader.Number = some localTd ∧
      ((¬(localTd < header.Difficulty + ptd ∨
            (header.Difficulty + ptd = localTd ∧ coin = true)) ∧
          r = (.SideStatTy, none) ∧ hc' = hc.withHeader header (header.Difficulty + ptd)) ∨
        ((localTd < header.Difficulty + ptd ∨
            (header.Difficulty + ptd = localTd ∧ coin = true)) ∧
          r = (.CanonStatTy, none) ∧
          rerouteCanonical header fuel (hc.withHeader header (header.Difficulty + ptd)) =
            .ok ⟨⟩ hc')) := by
  cases hp : hc.chainDb.GetTd header.ParentHash (header.Number - 1) with
  | none =>
    rw [writeHeader_parentError hp] at h
    cases h
    exact .inl ⟨rfl, rfl, rfl⟩
  | some ptd =>
    right
    cases hl : hc.chainDb.GetTd hc.currentHeaderHash hc.currentHeader.Number with
    | none =>
      rw [writeHeader_no_localTd hp hl] at h
      cases h
    | some localTd =>
      refine ⟨ptd, localTd, rfl, rfl, ?_⟩
      by_cases hcanon : localTd < header.Difficulty + ptd ∨
          (header.Difficulty + ptd = localTd ∧ coin = true)
      · rw [writeHeader_canon hp hl hcanon, bind_eq_ok] at h
        obtain ⟨⟨⟩, s, hr, hpure⟩ := h
        cases hpure
        exact .inr ⟨hcanon, rfl, hr⟩
      · rw [writeHeader_side hp hl hcanon] at h
        cases h
        exact .inl ⟨hcanon, rfl, rfl⟩

/-! The canonical index's writes leave the total difficulties alone. -/

theorem keeps_tds_deleteCanonicalFrom {T : Hash × UInt64 → Option Int} :
    Keeps (fun hc => hc.chainDb.tds = T) (deleteCanonicalFrom fuel i) := by
  induction fuel generalizing i with
  | zero => exact keeps_throw _
  | succ fuel ih =>
    rw [deleteCanonicalFrom]
    exact keeps_get.bind fun _ =>
      .ite (keeps_pure _) ((keeps_modifyDb fun _ h => h).bind fun _ => ih)

theorem keeps_tds_rewriteCanonical {T : Hash × UInt64 → Option Int} :
    Keeps (fun hc => hc.chainDb.tds = T) (rewriteCanonical fuel headHash n headHeader) := by
  induction fuel generalizing headHash n headHeader with
  | zero => exact keeps_throw _
  | succ fuel ih =>
    -- the walk goes on only past a stored header
    cases headHeader with
    | none =>
      rw [rewriteCanonical]
      exact keeps_get.bind fun _ => .ite (keeps_pure _)
        ((keeps_modifyDb fun _ h => h).bind fun _ => keeps_throw _)
    | some h =>
      rw [rewriteCanonical]
      exact keeps_get.bind fun _ => .ite (keeps_pure _)
        ((keeps_modifyDb fun _ h => h).bind fun _ => keeps_get.bind fun _ => ih)

theorem keeps_tds_rerouteCanonical {T : Hash × UInt64 → Option Int} :
    Keeps (fun hc => hc.chainDb.tds = T) (rerouteCanonical header fuel) :=
  keeps_tds_deleteCanonicalFrom.bind fun _ => keeps_get.bind fun _ =>
    keeps_tds_rewriteCanonical.bind fun _ => (keeps_modifyDb fun _ h => h).bind fun _ =>
      keeps_modify fun _ h => h

/-- Part (a) for one write: a header `WriteHeader` stores gets its parent's
total difficulty plus its own difficulty. -/
theorem writeHeader_td (h : WriteHeader header coin fuel hc = .ok r hc')
    (hp : hc.chainDb.GetTd header.ParentHash (header.Number - 1) = some ptd) :
    hc'.chainDb.GetTd header.Hash header.Number = some (header.Difficulty + ptd) := by
  rcases writeHeader_ok h with
    ⟨hnone, -, -⟩ | ⟨ptd', localTd, hp', -, ⟨-, -, rfl⟩ | ⟨-, -, hr⟩⟩
  · rw [hp] at hnone
    cases hnone
  · rw [hp] at hp'
    cases hp'
    simp [withHeader]
  · rw [hp] at hp'
    cases hp'
    have htds := keeps_tds_rerouteCanonical.keeps _ _ _ rfl hr
    simp [htds, withHeader]

/-- The first header on a genesis of difficulty 1 gets total difficulty 2. -/
theorem writeHeader_td_first :
    ∃ r hc', WriteHeader ⟨10, 1, 1, 11⟩ false 3 (ofGenesis ⟨0, 0, 1, 10⟩) = .ok r hc' ∧
      (ofGenesis ⟨0, 0, 1, 10⟩).chainDb.GetTd 10 0 = some 1 ∧
      hc'.chainDb.GetTd 11 1 = some 2 := by
  have h : WriteHeader ⟨10, 1, 1, 11⟩ false 3 (ofGenesis ⟨0, 0, 1, 10⟩) = .ok _ _ := rfl
  exact ⟨_, _, h, rfl, writeHeader_td h rfl⟩

/-- Part (c) of the header chain's contract: the stored head header hash and
the cached `currentHeaderHash` are the current header's hash. -/
structure HeadAgrees (hc : HeaderChain) : Prop where
  cached : hc.currentHeaderHash = hc.currentHeader.Hash
  stored : hc.chainDb.headHeaderHash = hc.currentHeader.Hash

/-- It does not at the start: `WriteGenesisBlock` writes no head header hash. -/
theorem not_headAgrees_ofGenesis {g : Header} (hg : g.Hash ≠ 0) : ¬(ofGenesis g).HeadAgrees :=
  fun h => hg h.stored.symm

end Invariants

/-! ### A rewind that orphans a side header -/

/-- `SetHead` deletes the headers of the canonical chain only. A side header
`c2` of the rewound chain keeps its total difficulty but loses its parent
`a1`, so a heavier child `c3` of it makes `WriteHeader` walk back through
`a1`, which is gone, and dereference the missing header. -/
theorem writeHeader_panics_after_setHead (g a1 b2 c2 c3 : Header) (k₁ k₂ k₃ k₄ : Bool)
    (fuel : Nat) (hfuel : 3 ≤ fuel)
    (hg : g.Number = 0)
    (ha1 : a1.ParentHash = g.Hash ∧ a1.Number = 1)
    (hb2 : b2.ParentHash = a1.Hash ∧ b2.Number = 2)
    (hc2 : c2.ParentHash = a1.Hash ∧ c2.Number = 2)
    (hc3 : c3.ParentHash = c2.Hash ∧ c3.Number = 3)
    (hhash : a1.Hash ≠ 0 ∧ c2.Hash ≠ 0 ∧ c2.Hash ≠ b2.Hash)
    (hdiff : 0 < a1.Difficulty ∧ 0 ≤ c2.Difficulty ∧ c2.Difficulty < b2.Difficulty ∧
      0 ≤ c3.Difficulty) :
    ∃ s, run fuel [.writeHeader a1 k₁, .writeHeader b2 k₂, .writeHeader c2 k₃, .setHead 0,
      .writeHeader c3 k₄] (ofGenesis g) = .error .nilDereference s := by
  obtain ⟨f, rfl⟩ : ∃ f, fuel = f + 2 + 1 := ⟨fuel - 3, by omega⟩
  -- the headers as their fields, with the links and heights substituted
  obtain ⟨gp, gn, gd, gh⟩ := g
  obtain ⟨ap, an, ad, ah⟩ := a1
  obtain ⟨bp, bn, bd, bh⟩ := b2
  obtain ⟨cp, cn, cd, ch⟩ := c2
  obtain ⟨dp, dn, dd, dh⟩ := c3
  simp only at ha1 hb2 hc2 hc3 hg hhash hdiff
  obtain ⟨ha1p, ha1n⟩ := ha1
  obtain ⟨hb2p, hb2n⟩ := hb2
  obtain ⟨hc2p, hc2n⟩ := hc2
  obtain ⟨hc3p, hc3n⟩ := hc3
  subst ap an bp bn cp cn dp dn gn
  obtain ⟨ha1z, hc2z, hcb⟩ := hhash
  obtain ⟨hda, hdc, hdcb, hdc3⟩ := hdiff
  set g : Header := ⟨gp, 0, gd, gh⟩
  set a1 : Header := ⟨gh, 1, ad, ah⟩
  set b2 : Header := ⟨ah, 2, bd, bh⟩
  set c2 : Header := ⟨ah, 2, cd, ch⟩
  set c3 : Header := ⟨ch, 3, dd, dh⟩
  -- a1, then b2, extend the canonical chain; c2 is a lighter side header
  have hp₁ : (ofGenesis g).chainDb.GetTd a1.ParentHash (a1.Number - 1) = some gd := by
    simp [g, a1]
  have hl₁ : (ofGenesis g).chainDb.GetTd (ofGenesis g).currentHeaderHash
      (ofGenesis g).currentHeader.Number = some gd := by
    simp [g]
  set s₁ := ((ofGenesis g).withHeader a1 (a1.Difficulty + gd)).withHead a1
  have h₁ : WriteHeader a1 k₁ (f + 2 + 1) (ofGenesis g) = .ok (.CanonStatTy, none) s₁ :=
    writeHeader_extend hp₁ hl₁ (.inl (by simp [a1]; omega))
      (by simp [g, a1]) (by simp [g, a1])
  have hp₂ : s₁.chainDb.GetTd b2.ParentHash (b2.Number - 1) = some (ad + gd) := by
    simp [s₁, a1, b2]
  have hl₂ : s₁.chainDb.GetTd s₁.currentHeaderHash s₁.currentHeader.Number =
      some (ad + gd) := by
    simp [s₁, a1]
  set s₂ := (s₁.withHeader b2 (b2.Difficulty + (ad + gd))).withHead b2
  have h₂ : WriteHeader b2 k₂ (f + 2 + 1) s₁ = .ok (.CanonStatTy, none) s₂ :=
    writeHeader_extend hp₂ hl₂ (.inl (by simp [b2]; omega))
      (by simp [s₁, g, a1, b2])
      (by simp [s₁, a1, b2])
  have hp₃ : s₂.chainDb.GetTd c2.ParentHash (c2.Number - 1) = some (ad + gd) := by
    simp [s₂, s₁, a1, b2, c2]
  have hl₃ : s₂.chainDb.GetTd s₂.currentHeaderHash s₂.currentHeader.Number =
      some (bd + (ad + gd)) := by
    simp [s₂, b2]
  set s₃ := s₂.withHeader c2 (c2.Difficulty + (ad + gd))
  have h₃ : WriteHeader c2 k₃ (f + 2 + 1) s₂ = .ok (.SideStatTy, none) s₃ :=
    writeHeader_side hp₃ hl₃ (by simp [c2]; omega)
  -- SetHead 0 deletes b2 and a1, but not c2, and the canonical numbers 2 and 1
  set dbR := (((s₃.chainDb.DeleteHeader bh 2).DeleteTd bh 2).DeleteHeader ah 1).DeleteTd ah 1
  have hr : rewindHeaders 0 (f + 2 + 1) (some s₃.currentHeader) s₃ =
      .ok (some g) { s₃ with chainDb := dbR } := by
    have e₁ : (s₃.chainDb.DeleteHeader bh 2).GetHeader ah (2 - 1) = some a1 := by
      simp [s₃, s₂, s₁, a1, b2, c2]
    have e₂ : (((s₃.chainDb.DeleteHeader bh 2).DeleteTd bh 2).DeleteHeader ah 1).GetHeader gh
        (1 - 1) = some g := by
      simp [s₃, s₂, s₁, g, a1, b2, c2]
    rw [show s₃.currentHeader = b2 from rfl, rewindHeaders_step (by simp [b2]), e₁,
      rewindHeaders_step (by simp [a1]), e₂, rewindHeaders_stop (by simp [g])]
    rfl
  set s₄ : HeaderChain := { s₃ with
    chainDb := (deleteCanonicalDown dbR 2 2).WriteHeadHeaderHash gh
    currentHeader := g
    currentHeaderHash := gh }
  have h₄ : (Action.setHead 0).exec (f + 2 + 1) s₃ = .ok ⟨⟩ s₄ := by
    rw [Action.exec, setHead_of_rewind hr]
    rfl
  -- c3 outweighs the genesis head; the walk back from it reaches c2 and then the deleted a1
  have hp₅ : s₄.chainDb.GetTd c3.ParentHash (c3.Number - 1) = some (cd + (ad + gd)) := by
    simp [s₄, dbR, deleteCanonicalDown, s₃, s₂, s₁, g, a1, b2, c2, c3, hcb]
  have hl₅ : s₄.chainDb.GetTd s₄.currentHeaderHash s₄.currentHeader.Number = some gd := by
    simp [s₄, dbR, deleteCanonicalDown, s₃, s₂, s₁, g, a1, b2, c2]
  have hparent₅ : s₄.chainDb.GetHeader c3.ParentHash (c3.Number - 1) = some c2 := by
    simp [s₄, dbR, deleteCanonicalDown, s₃, s₂, s₁, g, a1, b2, c2, c3, hcb]
  obtain ⟨s, hs⟩ : ∃ s, WriteHeader c3 k₄ (f + 2 + 1) s₄ = .error .nilDereference s :=
    writeHeader_orphan_panics hp₅ hl₅
    (by simp [c3]; omega)
    (by simp [s₄, dbR, deleteCanonicalDown, s₃, s₂, s₁, g, a1, b2, c2, c3])
    hparent₅
    (by simp [c2, c3])
    (by simp [s₄, dbR, deleteCanonicalDown, s₃, s₂, s₁, g, a1, b2, c2, c3, hc2z.symm])
    (by simp [s₄, dbR, deleteCanonicalDown, s₃, s₂, s₁, g, a1, b2, c2])
    (by simp [s₄, dbR, deleteCanonicalDown, s₃, s₂, s₁, g, a1, b2, c2, ha1z.symm])
  refine ⟨s, ?_⟩
  rw [run_cons_of_ok (exec_writeHeader h₁), run_cons_of_ok (exec_writeHeader h₂),
    run_cons_of_ok (exec_writeHeader h₃), run_cons_of_ok h₄]
  exact run_writeHeader_error hs

theorem writeHeader_panics_after_setHead_fork :
    ∃ s, run 3 [.writeHeader ⟨10, 1, 1, 11⟩ false, .writeHeader ⟨11, 2, 5, 12⟩ false,
      .writeHeader ⟨11, 2, 1, 22⟩ false, .setHead 0, .writeHeader ⟨22, 3, 1, 23⟩ false]
      (ofGenesis ⟨0, 0, 1, 10⟩) = .error .nilDereference s :=
  writeHeader_panics_after_setHead ⟨0, 0, 1, 10⟩ ⟨10, 1, 1, 11⟩ ⟨11, 2, 5, 12⟩
    ⟨11, 2, 1, 22⟩ ⟨22, 3, 1, 23⟩ false false false false 3 (by decide) (by decide)
    (by decide) (by decide) (by decide) (by decide) (by decide) (by decide)

end HeaderChain

end GoEthereum.Core
