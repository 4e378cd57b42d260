import Mathlib

/-!
ManagedState (core/state/managed_state.go): the nonces the transaction pool
hands out ahead of the state. For each managed address it tracks the nonce
it started from (`nstart`) and a flag for every nonce handed out since.
`NewNonce` hands out the next nonce, `RemoveNonce` takes back a nonce and
those after it, `GetNonce` reads the next one, and `SetNonce` sets the nonce
in the backing state; `getAccount` starts to track an address afresh when
the backing state has passed the nonces handed out.

Along a run that leaves an address alone, NewNonce hands out the nonce
GetNonce read at the start and then each next one, never one twice
(`run_NewNonce_consecutive`); RemoveNonce of the nonce NewNonce has just
handed out undoes it (`RemoveNonce_NewNonce`).
-/

namespace GoEthereum.State

/-- The nonces of the live state objects of a StateDB; `none` where
GetStateObject returns nil. -/
abbrev StateDB (Address : Type) := Address → Option UInt64

/-- The tracked nonces of a managed address. -/
structure account where
  nstart : UInt64
  nonces : List Bool
  deriving DecidableEq, Repr

structure ManagedState (Address : Type) where
  StateDB : StateDB Address
  accounts : Address → Option account

variable {Address : Type} [DecidableEq Address]

/-- StateDB.GetNonce: the nonce of the state object, 0 without one. -/
def StateDB.GetNonce (db : StateDB Address) (addr : Address) : UInt64 := (db addr).getD 0

/-- StateDB.GetOrNewStateObject: the object's nonce, after creating an object
of nonce 0 where there is none. -/
def StateDB.GetOrNewStateObject (db : StateDB Address) (addr : Address) : UInt64 × StateDB Address :=
  match db addr with
  | some nonce => (nonce, db)
  | none => (0, Function.update db addr (some 0))

def newAccount (nonce : UInt64) : account := ⟨nonce, []⟩

/-- The next nonce of a tracked account. -/
def account.next (acc : account) : UInt64 := UInt64.ofNat acc.nonces.length + acc.nstart

def ManageState (statedb : StateDB Address) : ManagedState Address := ⟨statedb, fun _ => none⟩

namespace ManagedState

def SetState (ms : ManagedState Address) (statedb : State.StateDB Address) : ManagedState Address :=
  { ms with StateDB := statedb }

def hasAccount (ms : ManagedState Address) (addr : Address) : Bool := (ms.accounts addr).isSome

/-- ms.accounts[addr] = acc -/
def setAccount (ms : ManagedState Address) (addr : Address) (acc : account) : ManagedState Address :=
  { ms with accounts := Function.update ms.accounts addr (some acc) }

def getAccount (ms : ManagedState Address) (addr : Address) : account × ManagedState Address :=
  match ms.accounts addr with
  | none =>
    let so := StateDB.GetOrNewStateObject ms.StateDB addr
    (newAccount so.1, { StateDB := so.2, accounts := Function.update ms.accounts addr (some (newAccount so.1)) })
  | some acc =>
    -- the state's nonce has passed the tracked one
    match ms.StateDB addr with
    | some nonce =>
      if acc.next < nonce then (newAccount nonce, ms.setAccount addr (newAccount nonce)) else (acc, ms)
    | none => (acc, ms)

def RemoveNonce (ms : ManagedState Address) (addr : Address) (n : UInt64) : ManagedState Address :=
  if ms.hasAccount addr then
    let r := ms.getAccount addr
    if n - r.1.nstart ≤ UInt64.ofNat r.1.nonces.length then
      -- the flags of the nonces before `n`
      r.2.setAccount addr { r.1 with nonces := r.1.nonces.take (n - r.1.nstart).toNat }
    else r.2
  else ms

def NewNonce (ms : ManagedState Address) (addr : Address) : UInt64 × ManagedState Address :=
  let r := ms.getAccount addr
  match r.1.nonces.findIdx? (fun nonce => !nonce) with
  | some i => (r.1.nstart + UInt64.ofNat i, r.2)
  | none =>
    let acc := { r.1 with nonces := r.1.nonces ++ [true] }
    (UInt64.ofNat (acc.nonces.length - 1) + acc.nstart, r.2.setAccount addr acc)

def GetNonce (ms : ManagedState Address) (addr : Address) : UInt64 × ManagedState Address :=
  if ms.hasAccount addr then
    let r := ms.getAccount addr
    (r.1.next, r.2)
  else (StateDB.GetNonce ms.StateDB addr, ms)

def SetNonce (ms : ManagedState Address) (addr : Address) (nonce : UInt64) : ManagedState Address :=
  let db := (StateDB.GetOrNewStateObject ms.StateDB addr).2
  { StateDB := Function.update db addr (some nonce)
    accounts := Function.update ms.accounts addr (some (newAccount nonce)) }

end ManagedState

/-! ### The next nonce of an address -/

/-- The nonce GetNonce reads, from what the managed state holds for the
address: the tracked next nonce, or the state's where it has passed it or
where the address is not managed. -/
def nextOf : Option account → Option UInt64 → UInt64
  | none, nonce => nonce.getD 0
  | some acc, some nonce => if acc.next < nonce then nonce else acc.next
  | some acc, none => acc.next

/-- A tracked account whose nonces have all been handed out and whose next
nonce does not wrap. -/
structure account.Valid (acc : account) : Prop where
  flagged : ∀ b ∈ acc.nonces, b = true
  no_wrap : acc.nstart.toNat + acc.nonces.length < 2 ^ 64

theorem account.Valid.next_toNat {acc : account} (h : acc.Valid) :
    acc.next.toNat = acc.nstart.toNat + acc.nonces.length := by
  have := h.no_wrap
  rw [account.next, UInt64.toNat_add, UInt64.toNat_ofNat']
  omega

theorem newAccount_valid (nonce : UInt64) : (newAccount nonce).Valid :=
  ⟨fun _ hb => absurd hb List.not_mem_nil, by simpa [newAccount] using nonce.toNat_lt⟩

@[simp] theorem newAccount_next (nonce : UInt64) : (newAccount nonce).next = nonce := by
  simp [newAccount, account.next]

/-- One more flagged nonce: a valid account again, whose next nonce is one
more, while that does not wrap. -/
theorem account.Valid.flag {acc : account} (h : acc.Valid) (hb : acc.next.toNat + 1 < 2 ^ 64) :
    ({ acc with nonces := acc.nonces ++ [true] } : account).Valid ∧
      ({ acc with nonces := acc.nonces ++ [true] } : account).next = acc.next + 1 := by
  have hnext := h.next_toNat
  refine ⟨⟨fun b hb' => ?_, ?_⟩, ?_⟩
  · rcases List.mem_append.mp hb' with hb' | hb'
    · exact h.flagged b hb'
    · exact List.mem_singleton.mp hb'
  · simp only [List.length_append, List.length_singleton]
    omega
  · apply UInt64.toNat_inj.mp
    simp only [account.next, List.length_append, List.length_singleton, UInt64.toNat_add,
      UInt64.toNat_ofNat', UInt64.reduceToNat] at hnext hb ⊢
    omega

theorem GetOrNewStateObject_fst (db : StateDB Address) (addr : Address) :
    (StateDB.GetOrNewStateObject db addr).1 = (db addr).getD 0 := by
  unfold StateDB.GetOrNewStateObject
  split <;> simp_all

theorem GetOrNewStateObject_snd_self (db : StateDB Address) (addr : Address) :
    (StateDB.GetOrNewStateObject db addr).2 addr = some (StateDB.GetOrNewStateObject db addr).1 := by
  unfold StateDB.GetOrNewStateObject
  split <;> simp_all

theorem GetOrNewStateObject_snd_of_ne (db : StateDB Address) {addr addr' : Address} (h : addr' ≠ addr) :
    (StateDB.GetOrNewStateObject db addr).2 addr' = db addr' := by
  unfold StateDB.GetOrNewStateObject
  split
  · rfl
  · exact Function.update_of_ne h _ _

namespace ManagedState

/-- The entries of one address. -/
def entry (ms : ManagedState Address) (addr : Address) : Option account × Option UInt64 :=
  (ms.accounts addr, ms.StateDB addr)

/-- Every account tracked for the address is valid. -/
def ValidAt (ms : ManagedState Address) (addr : Address) : Prop :=
  ∀ acc, ms.accounts addr = some acc → acc.Valid

/-- The address is tracked as `acc`, and the state has not passed it. -/
structure Synced (ms : ManagedState Address) (addr : Address) (acc : account) : Prop where
  accounts_eq : ms.accounts addr = some acc
  not_passed : ∀ nonce, ms.StateDB addr = some nonce → ¬acc.next < nonce

omit [DecidableEq Address] in
theorem validAt_ManageState (statedb : State.StateDB Address) (addr : Address) :
    (ManageState statedb).ValidAt addr := by
  intro acc h
  cases h

variable (ms : ManagedState Address) (addr : Address)

theorem getAccount_of_synced {acc : account} (h : ms.Synced addr acc) : ms.getAccount addr = (acc, ms) := by
  unfold getAccount
  rw [h.accounts_eq]
  dsimp only
  cases hdb : ms.StateDB addr with
  | none => rfl
  | some nonce =>
    dsimp only
    rw [if_neg (h.not_passed nonce hdb)]

theorem synced_getAccount : (ms.getAccount addr).2.Synced addr (ms.getAccount addr).1 := by
  unfold getAccount
  cases hacc : ms.accounts addr with
  | none =>
    -- tracked from the nonce of the state object, now there for certain
    refine ⟨by simp, fun nonce hnonce => ?_⟩
    dsimp only at hnonce ⊢
    rw [GetOrNewStateObject_snd_self] at hnonce
    rw [newAccount_next, Option.some_inj.mp hnonce]
    exact UInt64.lt_irrefl _
  | some acc =>
    dsimp only
    cases hdb : ms.StateDB addr with
    | none => exact ⟨hacc, fun nonce h => by rw [hdb] at h; cases h⟩
    | some nonce =>
      dsimp only
      split
      · refine ⟨by simp [setAccount], fun nonce' h => ?_⟩
        simp only [setAccount, hdb, Option.some_inj] at h
        rw [newAccount_next, h]
        exact UInt64.lt_irrefl _
      · next hlt => exact ⟨hacc, fun nonce' h => by rw [hdb, Option.some_inj] at h; rwa [← h]⟩

/-- getAccount reads the next nonce GetNonce reports. -/
theorem getAccount_next : (ms.getAccount addr).1.next = nextOf (ms.accounts addr) (ms.StateDB addr) := by
  unfold getAccount
  cases hacc : ms.accounts addr with
  | none => simp [nextOf, GetOrNewStateObject_fst]
  | some acc =>
    cases hdb : ms.StateDB addr with
    | none => rfl
    | some nonce =>
      dsimp only [nextOf]
      split <;> simp

theorem GetNonce_fst : (ms.GetNonce addr).1 = nextOf (ms.accounts addr) (ms.StateDB addr) := by
  unfold GetNonce
  split
  · exact getAccount_next ms addr
  · next hnot =>
    have hnone : ms.accounts addr = none := by simpa [hasAccount] using hnot
    rw [hnone]
    rfl

omit [DecidableEq Address] in
theorem nextOf_of_synced {acc : account} (h : ms.Synced addr acc) :
    nextOf (ms.accounts addr) (ms.StateDB addr) = acc.next := by
  rw [h.accounts_eq]
  cases hdb : ms.StateDB addr with
  | none => rfl
  | some nonce => exact if_neg (h.not_passed nonce hdb)

theorem ValidAt.getAccount {ms : ManagedState Address} {addr : Address} (h : ms.ValidAt addr) :
    (ms.getAccount addr).1.Valid := by
  unfold ManagedState.getAccount
  cases hacc : ms.accounts addr with
  | none => exact newAccount_valid _
  | some acc =>
    dsimp only
    cases ms.StateDB addr with
    | none => exact h acc hacc
    | some nonce =>
      dsimp only
      split
      · exact newAccount_valid _
      · exact h acc hacc

/-! ### NewNonce -/

/-- On a valid account NewNonce hands out the next nonce and flags it. -/
theorem NewNonce_eq (h : ms.ValidAt addr) :
    ms.NewNonce addr = ((ms.getAccount addr).1.next, (ms.getAccount addr).2.setAccount addr
      { (ms.getAccount addr).1 with nonces := (ms.getAccount addr).1.nonces ++ [true] }) := by
  have hv := h.getAccount
  -- no tracked nonce is free again: the search for one finds none
  have hnone : (ms.getAccount addr).1.nonces.findIdx? (fun nonce => !nonce) = none := by
    rw [List.findIdx?_eq_none_iff]
    intro b hb
    simp [hv.flagged b hb]
  unfold NewNonce
  dsimp only
  rw [hnone]
  simp [account.next]

theorem synced_NewNonce (h : ms.ValidAt addr) (hb : (ms.getAccount addr).1.next.toNat + 1 < 2 ^ 64) :
    (ms.NewNonce addr).2.Synced addr
      { (ms.getAccount addr).1 with nonces := (ms.getAccount addr).1.nonces ++ [true] } := by
  have hsync := synced_getAccount ms addr
  have hflag := h.getAccount.flag hb
  rw [NewNonce_eq ms addr h]
  refine ⟨by simp [setAccount], fun nonce hnonce => ?_⟩
  -- the state's nonce was at most the next nonce, and the new next is one more
  have hle := UInt64.not_lt.mp (hsync.not_passed nonce hnonce)
  rw [hflag.2, UInt64.not_lt, UInt64.le_iff_toNat_le, UInt64.toNat_add]
  rw [UInt64.le_iff_toNat_le] at hle
  simp only [UInt64.reduceToNat]
  omega

/-! ### What a call on another address leaves -/

variable {addr} {addr' : Address}

theorem setAccount_entry_of_ne (acc : account) (h : addr' ≠ addr) :
    (ms.setAccount addr acc).entry addr' = ms.entry addr' := by
  simp [entry, setAccount, Function.update_of_ne h]

theorem getAccount_entry_of_ne (h : addr' ≠ addr) : (ms.getAccount addr).2.entry addr' = ms.entry addr' := by
  unfold getAccount
  cases ms.accounts addr with
  | none =>
    simp only [entry, GetOrNewStateObject_snd_of_ne _ h, Function.update_of_ne h]
  | some acc =>
    dsimp only
    cases ms.StateDB addr with
    | none => rfl
    | some nonce =>
      dsimp only
      split
      · exact setAccount_entry_of_ne ms _ h
      · rfl

theorem NewNonce_entry_of_ne (h : addr' ≠ addr) : (ms.NewNonce addr).2.entry addr' = ms.entry addr' := by
  unfold NewNonce
  dsimp only
  split
  · exact getAccount_entry_of_ne ms h
  · rw [setAccount_entry_of_ne _ _ h, getAccount_entry_of_ne ms h]

theorem RemoveNonce_entry_of_ne (n : UInt64) (h : addr' ≠ addr) :
    (ms.RemoveNonce addr n).entry addr' = ms.entry addr' := by
  unfold RemoveNonce
  dsimp only
  split
  · split
    · rw [setAccount_entry_of_ne _ _ h, getAccount_entry_of_ne ms h]
    · exact getAccount_entry_of_ne ms h
  · rfl

theorem GetNonce_entry_of_ne (h : addr' ≠ addr) : (ms.GetNonce addr).2.entry addr' = ms.entry addr' := by
  unfold GetNonce
  split
  · exact getAccount_entry_of_ne ms h
  · rfl

theorem SetNonce_entry_of_ne (nonce : UInt64) (h : addr' ≠ addr) :
    (ms.SetNonce addr nonce).entry addr' = ms.entry addr' := by
  simp only [SetNonce, entry, Function.update_of_ne h, GetOrNewStateObject_snd_of_ne _ h]

omit [DecidableEq Address] in
/-- What holds of an address depends only on its entries. -/
theorem of_entry_eq {ms' : ManagedState Address} {addr : Address} (h : ms'.entry addr = ms.entry addr) :
    nextOf (ms'.accounts addr) (ms'.StateDB addr) = nextOf (ms.accounts addr) (ms.StateDB addr) ∧
      (ms.ValidAt addr → ms'.ValidAt addr) := by
  obtain ⟨hacc, hdb⟩ := Prod.ext_iff.mp h
  dsimp only [entry] at hacc hdb
  refine ⟨by rw [hacc, hdb], fun hv acc hs => hv acc (hacc ▸ hs)⟩

/-- GetNonce of the address itself moves nothing GetNonce reads. -/
theorem GetNonce_self (h : ms.ValidAt addr) :
    nextOf ((ms.GetNonce addr).2.accounts addr) ((ms.GetNonce addr).2.StateDB addr) =
        nextOf (ms.accounts addr) (ms.StateDB addr) ∧ (ms.GetNonce addr).2.ValidAt addr := by
  unfold GetNonce
  split
  · -- the refresh of getAccount is all that changes
    dsimp only
    have hsync := synced_getAccount ms addr
    refine ⟨by rw [nextOf_of_synced _ _ hsync, getAccount_next], fun acc hacc => ?_⟩
    rw [hsync.accounts_eq, Option.some_inj] at hacc
    exact hacc ▸ h.getAccount
  · exact ⟨rfl, h⟩

/-! ### Runs -/

/-- The calls on a managed state. -/
inductive Op (Address : Type)
  | NewNonce (addr : Address)
  | RemoveNonce (addr : Address) (n : UInt64)
  | GetNonce (addr : Address)
  | SetNonce (addr : Address) (nonce : UInt64)
  | SetState (statedb : State.StateDB Address)

/-- Whether a call can move the nonce of `addr` other than by handing it
out: RemoveNonce and SetNonce of it, and a new backing state. -/
def Op.resets (addr : Address) : Op Address → Bool
  | .RemoveNonce a _ | .SetNonce a _ => a = addr
  | .SetState _ => true
  | .NewNonce _ | .GetNonce _ => false

/-- One call, with the nonce it hands out. -/
def step (ms : ManagedState Address) : Op Address → Option (Address × UInt64) × ManagedState Address
  | .NewNonce addr => ((some (addr, (ms.NewNonce addr).1)), (ms.NewNonce addr).2)
  | .RemoveNonce addr n => (none, ms.RemoveNonce addr n)
  | .GetNonce addr => (none, (ms.GetNonce addr).2)
  | .SetNonce addr nonce => (none, ms.SetNonce addr nonce)
  | .SetState statedb => (none, ms.SetState statedb)

/-- A run of calls, with the nonces handed out in turn. -/
def run : ManagedState Address → List (Op Address) → List (Address × UInt64) × ManagedState Address
  | ms, [] => ([], ms)
  | ms, op :: ops => ((step ms op).1.toList ++ (run (step ms op).2 ops).1, (run (step ms op).2 ops).2)

/-- The nonces handed out for `addr`. -/
def handedTo (addr : Address) (out : List (Address × UInt64)) : List UInt64 :=
  (out.filter fun p => p.1 = addr).map Prod.snd

theorem handedTo_append (out out' : List (Address × UInt64)) :
    handedTo addr (out ++ out') = handedTo addr out ++ handedTo addr out' := by
  simp [handedTo]

/-- NewNonce of the address hands out what GetNonce reads and moves it on by
one. -/
theorem step_NewNonce_self (h : ms.ValidAt addr)
    (hb : (nextOf (ms.accounts addr) (ms.StateDB addr)).toNat + 1 < 2 ^ 64) :
    handedTo addr (step ms (.NewNonce addr)).1.toList = [nextOf (ms.accounts addr) (ms.StateDB addr)] ∧
      (step ms (.NewNonce addr)).2.ValidAt addr ∧
      nextOf ((step ms (.NewNonce addr)).2.accounts addr) ((step ms (.NewNonce addr)).2.StateDB addr) =
        nextOf (ms.accounts addr) (ms.StateDB addr) + 1 := by
  rw [← getAccount_next] at hb ⊢
  have hsync := synced_NewNonce ms addr h hb
  have hflag := h.getAccount.flag hb
  refine ⟨?_, fun acc hacc => ?_, ?_⟩
  · simp [step, handedTo, NewNonce_eq ms addr h]
  · rw [step, hsync.accounts_eq, Option.some_inj] at hacc
    exact hacc ▸ hflag.1
  · rw [step, nextOf_of_synced _ _ hsync, hflag.2]

/-- Any other call that does not reset the address hands out nothing for it
and moves nothing GetNonce reads of it. -/
theorem step_other (h : ms.ValidAt addr) {op : Op Address} (hop : op.resets addr = false)
    (hnew : op ≠ .NewNonce addr) :
    handedTo addr (step ms op).1.toList = [] ∧ (step ms op).2.ValidAt addr ∧
      nextOf ((step ms op).2.accounts addr) ((step ms op).2.StateDB addr) =
        nextOf (ms.accounts addr) (ms.StateDB addr) := by
  -- a call on another address leaves the entries of this one
  have hframe : ∀ ms' : ManagedState Address, ms'.entry addr = ms.entry addr →
      nextOf (ms'.accounts addr) (ms'.StateDB addr) = nextOf (ms.accounts addr) (ms.StateDB addr) ∧
        ms'.ValidAt addr := fun ms' he => ⟨(of_entry_eq ms he).1, (of_entry_eq ms he).2 h⟩
  cases op with
  | NewNonce a =>
    have ha : addr ≠ a := fun hea => hnew (hea ▸ rfl)
    obtain ⟨hnext, hv⟩ := hframe _ (NewNonce_entry_of_ne ms ha)
    exact ⟨by simp [step, handedTo, Ne.symm ha], hv, hnext⟩
  | RemoveNonce a n =>
    have ha : addr ≠ a := fun hea => by simp [Op.resets, hea] at hop
    obtain ⟨hnext, hv⟩ := hframe _ (RemoveNonce_entry_of_ne ms n ha)
    exact ⟨rfl, hv, hnext⟩
  | GetNonce a =>
    by_cases ha : addr = a
    · subst ha
      obtain ⟨hnext, hv⟩ := GetNonce_self ms h
      exact ⟨rfl, hv, hnext⟩
    · obtain ⟨hnext, hv⟩ := hframe _ (GetNonce_entry_of_ne ms ha)
      exact ⟨rfl, hv, hnext⟩
  | SetNonce a nonce =>
    have ha : addr ≠ a := fun hea => by simp [Op.resets, hea] at hop
    obtain ⟨hnext, hv⟩ := hframe _ (SetNonce_entry_of_ne ms nonce ha)
    exact ⟨rfl, hv, hnext⟩
  | SetState statedb => simp [Op.resets] at hop

/-! ### Taking a nonce back -/

theorem setAccount_setAccount (acc acc' : account) :
    (ms.setAccount addr acc).setAccount addr acc' = ms.setAccount addr acc' := by
  simp [setAccount]

theorem setAccount_of_accounts_eq {acc : account} (h : ms.accounts addr = some acc) :
    ms.setAccount addr acc = ms := by
  rw [setAccount, ← h, Function.update_eq_self]

/-- RemoveNonce of the nonce NewNonce has just handed out undoes it: the
managed state is as getAccount, with which NewNonce starts, leaves it. -/
theorem RemoveNonce_NewNonce (h : ms.ValidAt addr) (hb : (ms.GetNonce addr).1.toNat + 1 < 2 ^ 64) :
    (ms.NewNonce addr).2.RemoveNonce addr (ms.NewNonce addr).1 = (ms.getAccount addr).2 := by
  rw [GetNonce_fst, ← getAccount_next] at hb
  have hsync := synced_NewNonce ms addr h hb
  have hv := h.getAccount
  have hnext := hv.next_toNat
  rw [NewNonce_eq ms addr h] at hsync ⊢
  -- after NewNonce, getAccount finds the flagged account as it is
  unfold RemoveNonce
  rw [if_pos (by simp [hasAccount, setAccount]), getAccount_of_synced _ _ hsync]
  dsimp only
  -- the nonce handed out lies as many nonces past the start as were flagged before
  have hsub : ((ms.getAccount addr).1.next - (ms.getAccount addr).1.nstart).toNat =
      (ms.getAccount addr).1.nonces.length := by
    rw [UInt64.toNat_sub]
    have := (ms.getAccount addr).1.nstart.toNat_lt
    omega
  rw [if_pos (by rw [UInt64.le_iff_toNat_le, hsub, UInt64.toNat_ofNat']; simp only [List.length_append,
    List.length_singleton]; omega), hsub, List.take_left, setAccount_setAccount]
  exact setAccount_of_accounts_eq _ (synced_getAccount ms addr).accounts_eq

/-- An address of nonce 5 in the backing state. -/
theorem RemoveNonce_NewNonce_five :
    let ms := ManageState fun a : Nat => if a = 1 then some 5 else none
    (ms.GetNonce 1).1.toNat + 1 < 2 ^ 64 ∧
      (ms.NewNonce 1).2.RemoveNonce 1 (ms.NewNonce 1).1 = (ms.getAccount 1).2 :=
  ⟨by decide, RemoveNonce_NewNonce _ (validAt_ManageState _ 1) (by decide)⟩

theorem ofNat_succ_add (g : UInt64) (i : Nat) : g + UInt64.ofNat (i + 1) = g + 1 + UInt64.ofNat i := by
  apply UInt64.toNat_inj.mp
  simp only [UInt64.toNat_add, UInt64.toNat_ofNat', UInt64.reduceToNat]
  omega

theorem run_handedTo (h : ms.ValidAt addr) (ops : List (Op Address)) (hops : ∀ op ∈ ops, op.resets addr = false)
    (hb : (nextOf (ms.accounts addr) (ms.StateDB addr)).toNat + ops.length < 2 ^ 64) :
    ∃ k, handedTo addr (run ms ops).1 =
      (List.range k).map fun i => nextOf (ms.accounts addr) (ms.StateDB addr) + UInt64.ofNat i := by
  -- induction on the run; the invariant and the next nonce of `addr` go with it
  induction ops generalizing ms with
  | nil => exact ⟨0, rfl⟩
  | cons op ops ih =>
    have hops' : ∀ op' ∈ ops, op'.resets addr = false := fun op' hop' => hops op' (List.mem_cons_of_mem op hop')
    rw [List.length_cons] at hb
    rw [run, handedTo_append]
    by_cases hnew : op = .NewNonce addr
    · subst hnew
      obtain ⟨hout, hv, hnext⟩ := step_NewNonce_self ms h (by omega)
      have hnext' : (nextOf ((step ms (.NewNonce addr)).2.accounts addr)
          ((step ms (.NewNonce addr)).2.StateDB addr)).toNat =
          (nextOf (ms.accounts addr) (ms.StateDB addr)).toNat + 1 := by
        rw [hnext, UInt64.toNat_add]
        simp only [UInt64.reduceToNat]
        omega
      obtain ⟨k, hk⟩ := ih _ hv hops' (by omega)
      refine ⟨k + 1, ?_⟩
      rw [hout, hk, hnext, List.range_succ_eq_map, List.map_cons, List.map_map]
      simp only [UInt64.reduceOfNat, add_zero, List.singleton_append, List.cons.injEq, true_and]
      exact List.map_congr_left fun i _ => (ofNat_succ_add _ i).symm
    · obtain ⟨hout, hv, hnext⟩ := step_other ms h (hops op List.mem_cons_self) hnew
      obtain ⟨k, hk⟩ := ih _ hv hops' (by rw [hnext]; omega)
      exact ⟨k, by rw [hout, hk, hnext, List.nil_append]⟩

/-- Along a run that leaves `addr` alone (no RemoveNonce or SetNonce of it,
no new backing state), NewNonce hands out for `addr` the nonce GetNonce read
at the start and then each next one in turn, so never one twice, while they
stay below 2^64. -/
theorem run_NewNonce_consecutive (h : ms.ValidAt addr) (ops : List (Op Address))
    (hops : ∀ op ∈ ops, op.resets addr = false) (hb : (ms.GetNonce addr).1.toNat + ops.length < 2 ^ 64) :
    ∃ k, handedTo addr (run ms ops).1 = (List.range k).map fun i => (ms.GetNonce addr).1 + UInt64.ofNat i := by
  rw [GetNonce_fst] at hb ⊢
  exact run_handedTo ms h ops hops hb

/-- Nonces for two addresses handed out in turn, with a GetNonce between. -/
theorem run_NewNonce_consecutive_two :
    let ops : List (Op Nat) := [.NewNonce 1, .NewNonce 2, .GetNonce 1, .NewNonce 1]
    (∀ op ∈ ops, op.resets 1 = false) ∧
      ∃ k, handedTo 1 (run (ManageState fun _ => none) ops).1 =
        (List.range k).map fun i => ((ManageState fun _ => none).GetNonce 1).1 + UInt64.ofNat i :=
  ⟨by decide, run_NewNonce_consecutive _ (validAt_ManageState _ 1) _ (by decide) (by decide)⟩

end ManagedState

end GoEthereum.State
