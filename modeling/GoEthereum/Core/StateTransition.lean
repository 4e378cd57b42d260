import GoEthereum.Data.StateM
import GoEthereum.Vm.Env

/-!
Applying a message to the state (`core/state_transition.go`,
`core/gaspool.go`): the nonce check, buying the gas from the sender and from
the block's `GasPool`, the intrinsic gas, the EVM call or creation, the
refund, and the fee to the coinbase.

What a transition mutates is its own `gas` and `initialGas`, the pool `gp`
(a pointer the whole block shares) and the `StateDB`; they are the state of
an `EStateM` whose errors keep the state they were raised in, since a Go
error return leaves behind everything the steps before it did. The EVM's
`Call` and `Create` return the value `self.gas` has when they return,
because the top-level contract's `Gas` is that very `big.Int`.
-/

namespace GoEthereum.Core

open GoEthereum.StateM

def TxGas : Int := 21000

def TxGasContractCreation : Int := 53000

def TxDataZeroGas : Int := 4

def TxDataNonZeroGas : Int := 68

/-- `core.Message`. -/
structure Message where
  From : Nat
  To : Option Nat
  GasPrice : Int
  Gas : Int
  Value : Int
  Nonce : Nat
  CheckNonce : Bool
  Data : List UInt8

def MessageCreatesContract (msg : Message) : Bool := msg.To.isNone

/-- `IntrinsicGas`: what a message pays before any code runs. -/
def IntrinsicGas (data : List UInt8) (contractCreation homestead : Bool) : Int :=
  let igas := if contractCreation && homestead then TxGasContractCreation else TxGas
  if data.length > 0 then
    let nz : Int := data.countP (fun byt => byt != 0)
    igas + nz * TxDataNonZeroGas + ((data.length : Int) - nz) * TxDataZeroGas
  else igas

/-- The errors `TransitionDb` returns. -/
inductive TxError where
  /-- `NonceError(msg.Nonce(), n)` -/
  | nonce (Is Exp : Nat)
  /-- `GasLimitErr{Have, Want}` of `GasPool.SubGas` -/
  | gasLimit (Have Want : Int)
  /-- `"insufficient ETH for gas"` of `buyGas` -/
  | insufficientFunds (req has : Int)
  /-- `vm.ErrOutOfGas` -/
  | outOfGas
  /-- `vm.ErrInsufficientBalance` -/
  | insufficientBalance
  /-- `InvalidTxError(err)` -/
  | invalidTx (err : TxError)
  deriving Repr, DecidableEq

def TxError.IsGasLimitErr : TxError → Bool
  | .gasLimit _ _ => true
  | _ => false

/-- The errors of `EVM.Call` and `EVM.Create` the transition tells apart. -/
inductive VmErr where
  | insufficientBalance
  | codeStoreOutOfGas
  | other
  deriving Repr, DecidableEq

/-- The `StateDB` operations the transition calls. -/
structure StateDB (σ : Type) where
  exist : σ → Nat → Bool
  createAccount : σ → Nat → σ
  getNonce : σ → Nat → Nat
  setNonce : σ → Nat → Nat → σ
  getBalance : σ → Nat → Int
  addBalance : σ → Nat → Int → σ
  subBalance : σ → Nat → Int → σ
  getRefund : σ → Int
  /-- a write through the pointer `GetRefund` returns -/
  setRefund : σ → Int → σ

/-- What `EVM.Call` or `EVM.Create` leaves behind at the top level. -/
structure VmResult (σ : Type) where
  state : σ
  ret : List UInt8
  /-- `self.gas` when the call returns -/
  gas : Int
  err : Option VmErr

/-- The `vm.EVM` of the block; the address `Create` returns is not read. -/
structure Env (σ : Type) where
  chainConfig : Vm.ChainConfig
  blockNumber : Nat
  coinbase : Nat
  /-- `Call(caller, addr, input, gas, value)` -/
  Call : σ → Nat → Nat → List UInt8 → Int → Int → VmResult σ
  /-- `Create(caller, code, gas, value)` -/
  Create : σ → Nat → List UInt8 → Int → Int → VmResult σ

/-- `GasPool.AddGas`. -/
def GasPool.AddGas (gp amount : Int) : Int := gp + amount

/-- `GasPool.SubGas`. -/
def GasPool.SubGas (gp amount : Int) : Except TxError Int :=
  if gp < amount then .error (.gasLimit gp amount) else .ok (gp - amount)

/-- `common.BigMin`. -/
def BigMin (x y : Int) : Int := if x > y then y else x

/-- The mutable part of a `StateTransition`; the message, its price, value
and data are read only. -/
structure StateTransition (σ : Type) where
  gp : Int
  gas : Int
  initialGas : Int
  state : σ

def StateTransition.gasUsed {σ : Type} (st : StateTransition σ) : Int := st.initialGas - st.gas

abbrev TransitionM (σ : Type) := EStateM TxError (StateTransition σ)

section Transition

variable {σ : Type} (db : StateDB σ) (env : Env σ) (msg : Message)

/-- What `from()` and `to()` do to the state: create the account at `addr`
when it does not exist. -/
def StateDB.ensureAccount (s : σ) (addr : Nat) : σ :=
  if db.exist s addr then s else db.createAccount s addr

/-- The account at `addr`, created when it does not exist: the body of
`from()`, and of `to()` for a message with a recipient. -/
def account (addr : Nat) : TransitionM σ Nat := fun st =>
  .ok addr { st with state := db.ensureAccount st.state addr }

/-- `from()` -/
def fromAccount : TransitionM σ Nat := account db msg.From

/-- `to()`: nil for a contract creation. -/
def toAccount : TransitionM σ (Option Nat) :=
  match msg.To with
  | none => pure none
  | some addr => some <$> account db addr

def useGas (amount : Int) : TransitionM σ Unit := fun st =>
  if st.gas < amount then .error .outOfGas st else .ok () { st with gas := st.gas - amount }

def buyGas : TransitionM σ Unit := do
  let mgas := msg.Gas
  let mgval := mgas * msg.GasPrice
  let sender ← fromAccount db msg
  let st ← get
  if db.getBalance st.state sender < mgval then
    throw (.insufficientFunds mgval (db.getBalance st.state sender))
  match GasPool.SubGas st.gp mgas with
  | .error err => throw err
  | .ok gp =>
      -- `addGas(mgas)`, `initialGas.Set(mgas)` and `sender.SubBalance(mgval)`
      set { st with
        gp := gp
        gas := st.gas + mgas
        initialGas := mgas
        state := db.subBalance st.state sender mgval }

def preCheck : TransitionM σ Unit := do
  let sender ← fromAccount db msg
  if msg.CheckNonce then
    let n := db.getNonce (← get).state sender
    if n ≠ msg.Nonce then throw (.nonce msg.Nonce n)
  EStateM.adaptExcept (fun err => if err.IsGasLimitErr then err else .invalidTx err)
    (buyGas db msg)

def refundGas : TransitionM σ Unit := do
  let sender ← fromAccount db msg
  let st ← get
  let remaining := st.gas * msg.GasPrice
  let st := { st with state := db.addBalance st.state sender remaining }
  let uhalf := st.gasUsed / 2
  let counter := db.getRefund st.state
  let refund := BigMin uhalf counter
  let st := { st with gas := st.gas + refund }
  -- `BigMin` returns the counter's own `big.Int` when `uhalf` is larger, and
  -- `refund.Mul(refund, self.gasPrice)` then writes the product into it
  let st := if uhalf > counter then { st with state := db.setRefund st.state (refund * msg.GasPrice) }
    else st
  let st := { st with state := db.addBalance st.state sender (refund * msg.GasPrice) }
  set { st with gp := GasPool.AddGas st.gp st.gas }

/-- The EVM run of `TransitionDb`: `Create` for a contract creation, else the
nonce increment and `Call`. `err` is `TransitionDb`'s named result. -/
def runVm (sender : Nat) (homestead : Bool) (err : Option VmErr) : TransitionM σ (VmResult σ) :=
  if MessageCreatesContract msg then do
    let st ← get
    let r := env.Create st.state sender msg.Data st.gas msg.Value
    -- the test reads `err`, not `vmerr`, so it never zeroes the gas
    pure (if homestead && err == some .codeStoreOutOfGas then { r with gas := 0 } else r)
  else do
    modify fun st => { st with state := db.setNonce st.state sender (db.getNonce st.state sender + 1) }
    let recipient ← toAccount db msg
    let st ← get
    -- `to()` is not nil here: the message has a recipient
    pure (env.Call st.state sender (recipient.getD 0) msg.Data st.gas msg.Value)

/-- `TransitionDb`: the return data, the gas used before the refund and the
gas used after it. -/
def TransitionDb : TransitionM σ (List UInt8 × Int × Int) := do
  preCheck db msg
  let sender ← fromAccount db msg
  let homestead := env.chainConfig.IsHomestead env.blockNumber
  let contractCreation := MessageCreatesContract msg
  EStateM.adaptExcept .invalidTx (useGas (IntrinsicGas msg.Data contractCreation homestead))
  -- `err`, the function's named result, is nil from here on
  let err : Option VmErr := none
  let r ← runVm db env msg sender homestead err
  modify fun st => { st with state := r.state, gas := r.gas }
  if r.err == some .insufficientBalance then throw (.invalidTx .insufficientBalance)
  let requiredGas := (← get).gasUsed
  refundGas db msg
  modify fun st =>
    { st with state := db.addBalance st.state env.coinbase (st.gasUsed * msg.GasPrice) }
  return (r.ret, requiredGas, (← get).gasUsed)

def NewStateTransition (state : σ) (gp : Int) : StateTransition σ :=
  { gp := gp, gas := 0, initialGas := 0, state := state }

/-- `ApplyMessage`: the return data and the gas used, or the error, with the
state and the pool as the transition leaves them either way. -/
def ApplyMessage (state : σ) (gp : Int) :
    EStateM.Result TxError (StateTransition σ) (List UInt8 × Int) :=
  ((fun r => (r.1, r.2.2)) <$> TransitionDb db env msg) (NewStateTransition state gp)

/-! ### Example states, blocks and messages -/

/-- A state in which every account exists with no balance and nonce zero. -/
def constantStateDB : StateDB Unit where
  exist _ _ := true
  createAccount s _ := s
  getNonce _ _ := 0
  setNonce s _ _ := s
  getBalance _ _ := 0
  addBalance s _ _ := s
  subBalance s _ _ := s
  getRefund _ := 0
  setRefund s _ := s

/-- Balances by account and the refund counter; every account exists, with
nonce zero. -/
def ledgerStateDB : StateDB ((Nat → Int) × Int) where
  exist _ _ := true
  createAccount s _ := s
  getNonce _ _ := 0
  setNonce s _ _ := s
  getBalance s a := s.1 a
  addBalance s a v := (Function.update s.1 a (s.1 a + v), s.2)
  subBalance s a v := (Function.update s.1 a (s.1 a - v), s.2)
  getRefund s := s.2
  setRefund s v := (s.1, v)

/-- Every account holds 100000 and the refund counter is empty. -/
def fundedLedger : (Nat → Int) × Int := (fun _ => 100000, 0)

/-- A Homestead block whose EVM gives back all the gas it is handed. -/
def idleEnv : Env Unit where
  chainConfig := { homesteadBlock := some 0, eip150Block := none, eip158Block := none }
  blockNumber := 1
  coinbase := 3
  Call s _ _ _ gas _ := ⟨s, [], gas, none⟩
  Create s _ _ gas _ := ⟨s, [], gas, none⟩

/-- A free value transfer with 20000 gas, below the 21000 every transaction
pays. -/
def underpricedTransfer : Message where
  From := 1
  To := some 2
  GasPrice := 0
  Gas := 20000
  Value := 0
  Nonce := 0
  CheckNonce := true
  Data := []

/-- A Homestead block whose EVM gives back all the gas it is handed and adds
4800 to the refund counter. -/
def refundingEnv : Env ((Nat → Int) × Int) where
  chainConfig := { homesteadBlock := some 0, eip150Block := none, eip158Block := none }
  blockNumber := 1
  coinbase := 3
  Call s _ _ _ gas _ := ⟨(s.1, s.2 + 4800), [], gas, none⟩
  Create s _ _ gas _ := ⟨(s.1, s.2 + 4800), [], gas, none⟩

/-- A free value transfer with the 21000 gas it needs. -/
def freeTransfer : Message := { underpricedTransfer with Gas := 21000 }

/-- A value transfer with the 21000 gas it needs, at a price of 2. -/
def paidTransfer : Message := { freeTransfer with GasPrice := 2 }

/-! ### One lemma per step -/

@[simp] theorem ensureAccount_of_exist {s : σ} {addr : Nat} (h : db.exist s addr = true) :
    db.ensureAccount s addr = s := by
  simp [StateDB.ensureAccount, h]

@[simp] theorem account_apply (addr : Nat) (st : StateTransition σ) :
    account db addr st = .ok addr { st with state := db.ensureAccount st.state addr } := rfl

@[simp] theorem fromAccount_apply (st : StateTransition σ) :
    fromAccount db msg st = .ok msg.From { st with state := db.ensureAccount st.state msg.From } :=
  rfl

/-- With an existing, funded sender, a pool that holds the gas and the
right nonce, the pre-check buys the gas: the pool and the sender give up
`msg.Gas` and its price, and the transition holds it. -/
theorem preCheck_of_funds (st : StateTransition σ) (hexist : db.exist st.state msg.From = true)
    (hnonce : msg.CheckNonce = true → db.getNonce st.state msg.From = msg.Nonce)
    (hfunds : msg.Gas * msg.GasPrice ≤ db.getBalance st.state msg.From)
    (hpool : msg.Gas ≤ st.gp) :
    preCheck db msg st = .ok ()
      { gp := st.gp - msg.Gas, gas := st.gas + msg.Gas, initialGas := msg.Gas,
        state := db.subBalance st.state msg.From (msg.Gas * msg.GasPrice) } := by
  have hbuy : buyGas db msg st = .ok ()
      { gp := st.gp - msg.Gas, gas := st.gas + msg.Gas, initialGas := msg.Gas,
        state := db.subBalance st.state msg.From (msg.Gas * msg.GasPrice) } := by
    have hsub : GasPool.SubGas st.gp msg.Gas = .ok (st.gp - msg.Gas) := by
      simp [GasPool.SubGas, not_lt.mpr hpool]
    simp [buyGas, bind_apply, hexist, not_lt.mpr hfunds, hsub]
  cases hcheck : msg.CheckNonce with
  | false => simp [preCheck, bind_apply, hexist, hcheck, adaptExcept_apply, hbuy]
  | true =>
      have hn := hnonce hcheck
      simp [preCheck, bind_apply, hexist, hcheck, hn, adaptExcept_apply, hbuy]

theorem subGas_eq_ok {gp amount gp' : Int} :
    GasPool.SubGas gp amount = .ok gp' ↔ amount ≤ gp ∧ gp' = gp - amount := by
  unfold GasPool.SubGas
  split_ifs with h
  · simp only [false_iff, not_and]
    omega
  · simp only [Except.ok.injEq]
    omega

/-- A successful `buyGas` moves `msg.Gas` from the pool into the transition
and its price out of the sender's balance. -/
theorem buyGas_ok {st st' : StateTransition σ} {u : Unit} (h : buyGas db msg st = .ok u st') :
    st' = ⟨st.gp - msg.Gas, st.gas + msg.Gas, msg.Gas,
      db.subBalance (db.ensureAccount st.state msg.From) msg.From (msg.Gas * msg.GasPrice)⟩ := by
  simp only [buyGas, bind_apply, fromAccount_apply, get_apply] at h
  split_ifs at h with hfunds
  · cases h
  · cases hsub : GasPool.SubGas st.gp msg.Gas with
    | error err =>
        rw [hsub] at h
        cases h
    | ok gp =>
        rw [hsub] at h
        obtain ⟨-, rfl⟩ := subGas_eq_ok.mp hsub
        cases h
        rfl

theorem preCheck_ok {st st' : StateTransition σ} {u : Unit} (h : preCheck db msg st = .ok u st') :
    st' = ⟨st.gp - msg.Gas, st.gas + msg.Gas, msg.Gas,
      db.subBalance (db.ensureAccount (db.ensureAccount st.state msg.From) msg.From) msg.From
        (msg.Gas * msg.GasPrice)⟩ := by
  simp only [preCheck, bind_apply, fromAccount_apply] at h
  -- the nonce check either throws or leaves the state to `buyGas`
  by_cases hcheck : msg.CheckNonce = true
  · rw [if_pos hcheck] at h
    simp only [bind_apply, get_apply] at h
    by_cases hn : db.getNonce (db.ensureAccount st.state msg.From) msg.From ≠ msg.Nonce
    · rw [if_pos hn] at h
      simp only [bind_apply, throw_apply] at h
      cases h
    · rw [if_neg hn] at h
      exact buyGas_ok db msg (adaptExcept_eq_ok.mp h)
  · rw [if_neg hcheck] at h
    exact buyGas_ok db msg (adaptExcept_eq_ok.mp h)

/-- `refundGas` in closed form: the sender gets the remaining gas and the
capped refund back at the gas price, the refund joins the transition's gas,
and all of that gas goes back to the pool. -/
theorem refundGas_eq (st : StateTransition σ) :
    let s := db.addBalance (db.ensureAccount st.state msg.From) msg.From (st.gas * msg.GasPrice)
    let refund := BigMin (st.gasUsed / 2) (db.getRefund s)
    refundGas db msg st = .ok ()
      ⟨st.gp + (st.gas + refund), st.gas + refund, st.initialGas,
        db.addBalance (if st.gasUsed / 2 > db.getRefund s then db.setRefund s (refund * msg.GasPrice)
          else s) msg.From (refund * msg.GasPrice)⟩ := by
  intro s refund
  simp only [refundGas, bind_apply, fromAccount_apply, get_apply, set_apply, GasPool.AddGas,
    StateTransition.gasUsed, s, refund]
  by_cases halias : (st.initialGas - st.gas) / 2 >
      db.getRefund (db.addBalance (db.ensureAccount st.state msg.From) msg.From (st.gas * msg.GasPrice))
  · simp only [halias, if_true]
  · simp only [halias, if_false]

theorem useGas_ok {amount : Int} {st st' : StateTransition σ} {u : Unit}
    (h : useGas amount st = .ok u st') : amount ≤ st.gas ∧ st' = { st with gas := st.gas - amount } := by
  unfold useGas at h
  split_ifs at h with hlt
  cases h
  exact ⟨by omega, rfl⟩

/-- The run the EVM is handed, from the transition `st` that has paid the
intrinsic gas: `Create` from its state, or `Call` after the nonce increment
and `to()`, each with all of its gas. -/
def VmCall (st : StateTransition σ) (r : VmResult σ) : Prop :=
  match msg.To with
  | none => r = env.Create st.state msg.From msg.Data st.gas msg.Value
  | some addr =>
      r = env.Call (db.ensureAccount (db.setNonce st.state msg.From
        (db.getNonce st.state msg.From + 1)) addr) msg.From addr msg.Data st.gas msg.Value

/-- `runVm` touches only the state: its result is the run `VmCall` names. -/
theorem runVm_ok {homestead : Bool} {st st' : StateTransition σ} {r : VmResult σ}
    (h : runVm db env msg msg.From homestead none st = .ok r st') :
    VmCall db env msg st r ∧ st'.gp = st.gp ∧ st'.gas = st.gas ∧ st'.initialGas = st.initialGas := by
  unfold runVm at h
  cases hto : msg.To with
  | none =>
      simp only [MessageCreatesContract, hto, Option.isNone_none, if_true, bind_apply, get_apply,
        pure_apply] at h
      cases h
      simp [VmCall, hto]
  | some addr =>
      simp only [MessageCreatesContract, hto, Option.isNone_some, Bool.false_eq_true, if_false,
        bind_apply, modify_apply, toAccount, map_apply, account_apply, get_apply, pure_apply] at h
      cases h
      simp [VmCall, hto]

/-- A successful `TransitionDb` in phases: the pre-check, the intrinsic gas,
one EVM run that did not fail for want of balance, the refund from the state
and gas the run left, and the fee to the coinbase. -/
theorem transitionDb_ok {st st' : StateTransition σ} {ret : List UInt8} {req used : Int}
    (h : TransitionDb db env msg st = .ok (ret, req, used) st') :
    ∃ st₁ r st₂, preCheck db msg st = .ok () st₁ ∧
      IntrinsicGas msg.Data (MessageCreatesContract msg)
        (env.chainConfig.IsHomestead env.blockNumber) ≤ st₁.gas ∧
      VmCall db env msg ⟨st₁.gp, st₁.gas - IntrinsicGas msg.Data (MessageCreatesContract msg)
        (env.chainConfig.IsHomestead env.blockNumber), st₁.initialGas,
        db.ensureAccount st₁.state msg.From⟩ r ∧
      r.err ≠ some .insufficientBalance ∧
      refundGas db msg ⟨st₁.gp, r.gas, st₁.initialGas, r.state⟩ = .ok () st₂ ∧
      st' = { st₂ with state := db.addBalance st₂.state env.coinbase (st₂.gasUsed * msg.GasPrice) } ∧
      ret = r.ret ∧ req = st₁.initialGas - r.gas ∧ used = st₂.gasUsed := by
  unfold TransitionDb at h
  obtain ⟨_, st₁, hpre, h⟩ := bind_eq_ok.mp h
  rw [bind_of_ok (fromAccount_apply db msg st₁)] at h
  obtain ⟨_, st₂, huse, h⟩ := bind_eq_ok.mp h
  obtain ⟨hintrinsic, rfl⟩ := useGas_ok (adaptExcept_eq_ok.mp huse)
  obtain ⟨r, st₃, hvm, h⟩ := bind_eq_ok.mp h
  obtain ⟨hcall, hgp, hgas, hinit⟩ := runVm_ok db env msg hvm
  rw [bind_of_ok (modify_apply _ st₃)] at h
  by_cases hbal : (r.err == some VmErr.insufficientBalance) = true
  · rw [if_pos hbal] at h
    simp [bind_apply] at h
  · rw [if_neg hbal] at h
    simp only [bind_apply, get_apply] at h
    simp only at hgp hinit hintrinsic hcall
    obtain ⟨st₂, hrefund⟩ : ∃ st₂,
        refundGas db msg ⟨st₁.gp, r.gas, st₁.initialGas, r.state⟩ = .ok () st₂ :=
      ⟨_, refundGas_eq db msg _⟩
    rw [hgp, hinit, hrefund] at h
    simp only [modify_apply, pure_apply, EStateM.Result.ok.injEq, Prod.mk.injEq] at h
    obtain ⟨⟨rfl, rfl, rfl⟩, rfl⟩ := h
    refine ⟨st₁, r, st₂, hpre, hintrinsic, hcall, ?_, hrefund, rfl, rfl, rfl, rfl⟩
    simpa using hbal

/-! ### The gas of a message that is applied -/

theorem bigMin_eq_min (x y : Int) : BigMin x y = min x y := by
  unfold BigMin
  split_ifs with h
  · exact (min_eq_right (le_of_lt h)).symm
  · exact (min_eq_left (not_lt.mp h)).symm

theorem applyMessage_ok_transitionDb {state : σ} {gp : Int} {ret : List UInt8} {used : Int}
    {st' : StateTransition σ} (h : ApplyMessage db env msg state gp = .ok (ret, used) st') :
    ∃ req, TransitionDb db env msg (NewStateTransition state gp) = .ok (ret, req, used) st' := by
  obtain ⟨⟨ret', req, used'⟩, htx, hval⟩ := map_eq_ok.mp h
  simp only [Prod.mk.injEq] at hval
  obtain ⟨rfl, rfl⟩ := hval
  exact ⟨req, htx⟩

/-- The phases of a successful `ApplyMessage` with their numbers: the
transition buys `msg.Gas`, the EVM gets it less the intrinsic gas and gives
back `r.gas`, and the refund is the smaller of half the gas used so far and
the counter as the run left it, after the sender's first credit. -/
theorem applyMessage_ok_phases {state : σ} {gp : Int} {ret : List UInt8} {used : Int}
    {st' : StateTransition σ} (h : ApplyMessage db env msg state gp = .ok (ret, used) st') :
    ∃ r : VmResult σ,
      let s := db.addBalance (db.ensureAccount r.state msg.From) msg.From (r.gas * msg.GasPrice)
      let refund := BigMin ((msg.Gas - r.gas) / 2) (db.getRefund s)
      VmCall db env msg ⟨gp - msg.Gas, msg.Gas - IntrinsicGas msg.Data (MessageCreatesContract msg)
        (env.chainConfig.IsHomestead env.blockNumber), msg.Gas,
        db.ensureAccount (db.subBalance (db.ensureAccount (db.ensureAccount state msg.From)
          msg.From) msg.From (msg.Gas * msg.GasPrice)) msg.From⟩ r ∧
      r.err ≠ some .insufficientBalance ∧ ret = r.ret ∧
      IntrinsicGas msg.Data (MessageCreatesContract msg)
        (env.chainConfig.IsHomestead env.blockNumber) ≤ msg.Gas ∧
      st'.gp = gp - msg.Gas + (r.gas + refund) ∧ st'.gas = r.gas + refund ∧
      used = msg.Gas - (r.gas + refund) ∧
      st'.state = db.addBalance (db.addBalance
        (if (msg.Gas - r.gas) / 2 > db.getRefund s then db.setRefund s (refund * msg.GasPrice) else s)
        msg.From (refund * msg.GasPrice)) env.coinbase (used * msg.GasPrice) := by
  obtain ⟨req, htx⟩ := applyMessage_ok_transitionDb db env msg h
  obtain ⟨st₁, r, st₂, hpre, hintrinsic, hcall, hbal, hrefund, rfl, rfl, -, rfl⟩ :=
    transitionDb_ok db env msg htx
  have hst₁ := preCheck_ok db msg hpre
  simp only [NewStateTransition, zero_add] at hst₁
  subst hst₁
  rw [refundGas_eq] at hrefund
  cases hrefund
  exact ⟨r, hcall, hbal, rfl, hintrinsic, rfl, rfl, rfl, rfl⟩

/-- The block's pool gives up exactly the gas a successful message used. -/
theorem applyMessage_ok_gasPool {state : σ} {gp : Int} {ret : List UInt8} {used : Int}
    {st' : StateTransition σ} (h : ApplyMessage db env msg state gp = .ok (ret, used) st') :
    st'.gp = gp - used := by
  obtain ⟨r, -, -, -, -, hgp, -, hused, -⟩ := applyMessage_ok_phases db env msg h
  rw [hgp, hused]
  ring

theorem applyMessage_ok_gasPool_freeTransfer :
    ∃ st', ApplyMessage constantStateDB idleEnv freeTransfer () 4712388 = .ok ([], 21000) st' ∧
      st'.gp = 4712388 - 21000 := by
  obtain ⟨st', h⟩ : ∃ st', ApplyMessage constantStateDB idleEnv freeTransfer () 4712388 =
      .ok ([], 21000) st' := ⟨_, rfl⟩
  exact ⟨st', h, applyMessage_ok_gasPool constantStateDB idleEnv freeTransfer h⟩

/-- The refund a successful transition credits, the gas used before the
refund less the gas used after it, is at most half of the former. -/
theorem transitionDb_ok_refund_le {st st' : StateTransition σ} {ret : List UInt8} {req used : Int}
    (h : TransitionDb db env msg st = .ok (ret, req, used) st') : req - used ≤ req / 2 := by
  obtain ⟨st₁, r, st₂, -, -, -, -, hrefund, -, -, rfl, rfl⟩ := transitionDb_ok db env msg h
  rw [refundGas_eq] at hrefund
  cases hrefund
  simp only [StateTransition.gasUsed, bigMin_eq_min]
  have hmin := min_le_left ((st₁.initialGas - r.gas) / 2)
    (db.getRefund (db.addBalance (db.ensureAccount r.state msg.From) msg.From (r.gas * msg.GasPrice)))
  omega

/-- Of the 21000 gas a paid transfer buys, the 4800 the EVM left in the
refund counter come back. -/
theorem transitionDb_ok_refund_le_paidTransfer :
    ∃ st', TransitionDb ledgerStateDB refundingEnv paidTransfer
        (NewStateTransition fundedLedger 4712388) = .ok ([], 21000, 16200) st' ∧
      (21000 : Int) - 16200 ≤ 21000 / 2 := by
  obtain ⟨st', h⟩ : ∃ st', TransitionDb ledgerStateDB refundingEnv paidTransfer
      (NewStateTransition fundedLedger 4712388) = .ok ([], 21000, 16200) st' := ⟨_, rfl⟩
  exact ⟨st', h, transitionDb_ok_refund_le ledgerStateDB refundingEnv paidTransfer h⟩

theorem intrinsicGas_nonneg (data : List UInt8) (contractCreation homestead : Bool) :
    0 ≤ IntrinsicGas data contractCreation homestead := by
  have hnz := List.countP_le_length (p := fun byt : UInt8 => byt != 0) (l := data)
  unfold IntrinsicGas TxGasContractCreation TxGas TxDataNonZeroGas TxDataZeroGas
  dsimp only
  split_ifs <;> omega

/-- What the EVM guarantees of the gas at the top level: a run handed a
non-negative amount gives back between none and all of it. -/
structure Env.GasBounded (env : Env σ) : Prop where
  call : ∀ s caller addr input gas value, 0 ≤ gas →
    0 ≤ (env.Call s caller addr input gas value).gas ∧
      (env.Call s caller addr input gas value).gas ≤ gas
  create : ∀ s caller code gas value, 0 ≤ gas →
    0 ≤ (env.Create s caller code gas value).gas ∧ (env.Create s caller code gas value).gas ≤ gas

theorem VmCall.gas_bounds {st : StateTransition σ} {r : VmResult σ} (henv : env.GasBounded)
    (hcall : VmCall db env msg st r) (hgas : 0 ≤ st.gas) : 0 ≤ r.gas ∧ r.gas ≤ st.gas := by
  unfold VmCall at hcall
  split at hcall
  · subst hcall
    exact henv.create _ _ _ _ _ hgas
  · subst hcall
    exact henv.call _ _ _ _ _ _ hgas

/-- With an EVM that gives back at most the gas it is handed and a refund
counter that is never negative, a successful message uses no more gas than
its limit, and no less than none. -/
theorem applyMessage_ok_gasUsed_le {state : σ} {gp : Int} {ret : List UInt8} {used : Int}
    {st' : StateTransition σ} (henv : env.GasBounded) (hcounter : ∀ s, 0 ≤ db.getRefund s)
    (h : ApplyMessage db env msg state gp = .ok (ret, used) st') : 0 ≤ used ∧ used ≤ msg.Gas := by
  obtain ⟨r, hcall, -, -, hintrinsic, -, -, hused, -⟩ := applyMessage_ok_phases db env msg h
  have hi := intrinsicGas_nonneg msg.Data (MessageCreatesContract msg)
    (env.chainConfig.IsHomestead env.blockNumber)
  obtain ⟨hlo, hhi⟩ := hcall.gas_bounds db env msg henv (by simp only; omega)
  simp only at hhi
  rw [hused, bigMin_eq_min]
  -- the refund is the smaller of half the gas used and a non-negative counter
  have hmin := min_le_left ((msg.Gas - r.gas) / 2)
    (db.getRefund (db.addBalance (db.ensureAccount r.state msg.From) msg.From (r.gas * msg.GasPrice)))
  have hpos : 0 ≤ min ((msg.Gas - r.gas) / 2)
      (db.getRefund (db.addBalance (db.ensureAccount r.state msg.From) msg.From
        (r.gas * msg.GasPrice))) :=
    le_min (by omega) (hcounter _)
  omega

theorem applyMessage_ok_gasUsed_le_freeTransfer :
    idleEnv.GasBounded ∧ (∀ s, 0 ≤ constantStateDB.getRefund s) ∧
      ∃ st', ApplyMessage constantStateDB idleEnv freeTransfer () 4712388 = .ok ([], 21000) st' ∧
        0 ≤ (21000 : Int) ∧ (21000 : Int) ≤ freeTransfer.Gas := by
  have henv : idleEnv.GasBounded :=
    ⟨fun _ _ _ _ _ _ h => ⟨h, le_rfl⟩, fun _ _ _ _ _ h => ⟨h, le_rfl⟩⟩
  have hcounter : ∀ s, 0 ≤ constantStateDB.getRefund s := fun _ => le_rfl
  obtain ⟨st', h⟩ : ∃ st', ApplyMessage constantStateDB idleEnv freeTransfer () 4712388 =
      .ok ([], 21000) st' := ⟨_, rfl⟩
  exact ⟨henv, hcounter, st', h,
    applyMessage_ok_gasUsed_le constantStateDB idleEnv freeTransfer henv hcounter h⟩

/-! ### Fees and the refund counter

What the `StateDB` operations do to balances and to the refund counter, as
`core/state` implements them: `CreateAccount` keeps a previous balance, a
credit or debit changes only its own account, and the counter changes only
through its own pointer. -/

structure StateDB.Lawful (db : StateDB σ) : Prop where
  getBalance_createAccount : ∀ s a b, db.getBalance (db.createAccount s a) b = db.getBalance s b
  getBalance_setNonce : ∀ s a n b, db.getBalance (db.setNonce s a n) b = db.getBalance s b
  getBalance_addBalance : ∀ s a v b,
    db.getBalance (db.addBalance s a v) b = db.getBalance s b + if a = b then v else 0
  getBalance_subBalance : ∀ s a v b,
    db.getBalance (db.subBalance s a v) b = db.getBalance s b - if a = b then v else 0
  getBalance_setRefund : ∀ s v b, db.getBalance (db.setRefund s v) b = db.getBalance s b
  getRefund_createAccount : ∀ s a, db.getRefund (db.createAccount s a) = db.getRefund s
  getRefund_addBalance : ∀ s a v, db.getRefund (db.addBalance s a v) = db.getRefund s
  getRefund_setRefund : ∀ s v, db.getRefund (db.setRefund s v) = v

theorem ledgerStateDB_lawful : ledgerStateDB.Lawful where
  getBalance_createAccount _ _ _ := rfl
  getBalance_setNonce _ _ _ _ := rfl
  getBalance_addBalance s a v b := by
    by_cases h : a = b
    · subst h
      simp [ledgerStateDB]
    · simp [ledgerStateDB, Function.update_of_ne (Ne.symm h), h]
  getBalance_subBalance s a v b := by
    by_cases h : a = b
    · subst h
      simp [ledgerStateDB]
    · simp [ledgerStateDB, Function.update_of_ne (Ne.symm h), h]
  getBalance_setRefund _ _ _ := rfl
  getRefund_createAccount _ _ := rfl
  getRefund_addBalance _ _ _ := rfl
  getRefund_setRefund _ _ := rfl

section Lawful

variable {db} (hdb : db.Lawful)
include hdb

theorem getBalance_ensureAccount (s : σ) (a b : Nat) :
    db.getBalance (db.ensureAccount s a) b = db.getBalance s b := by
  unfold StateDB.ensureAccount
  split
  · rfl
  · exact hdb.getBalance_createAccount s a b

theorem getRefund_ensureAccount (s : σ) (a : Nat) :
    db.getRefund (db.ensureAccount s a) = db.getRefund s := by
  unfold StateDB.ensureAccount
  split
  · rfl
  · exact hdb.getRefund_createAccount s a

/-- The EVM is handed the state as the pre-check leaves it, less the gas's
price from the sender, and outside the run a successful message moves
exactly `used * msg.GasPrice` from the sender to the coinbase: the sender
gets back the price of the gas it did not use. -/
theorem applyMessage_ok_fees {state : σ} {gp : Int} {ret : List UInt8} {used : Int}
    {st' : StateTransition σ} (h : ApplyMessage db env msg state gp = .ok (ret, used) st') :
    ∃ (st₀ : StateTransition σ) (r : VmResult σ), VmCall db env msg st₀ r ∧
      (∀ a, db.getBalance st₀.state a =
        db.getBalance state a - if msg.From = a then msg.Gas * msg.GasPrice else 0) ∧
      ∀ a, db.getBalance st'.state a = db.getBalance r.state a +
        (if msg.From = a then (msg.Gas - used) * msg.GasPrice else 0) +
        (if env.coinbase = a then used * msg.GasPrice else 0) := by
  obtain ⟨r, hcall, -, -, -, -, -, hused, hstate⟩ := applyMessage_ok_phases db env msg h
  refine ⟨_, r, hcall, fun a => ?_, fun a => ?_⟩
  · simp only [getBalance_ensureAccount hdb, hdb.getBalance_subBalance]
  · -- the refund may also have written the counter, which no balance sees
    have hcounter : ∀ (c : Prop) [Decidable c] (s : σ) (v : Int),
        db.getBalance (if c then db.setRefund s v else s) a = db.getBalance s a := by
      intro c _ s v
      split
      · exact hdb.getBalance_setRefund s v a
      · rfl
    rw [hstate, hdb.getBalance_addBalance, hdb.getBalance_addBalance, hcounter,
      hdb.getBalance_addBalance, getBalance_ensureAccount hdb, hused]
    split_ifs <;> ring

/-- The refund counter after a successful message: the value the run left,
unless half the gas used before the refund is larger, when `BigMin` hands
`refundGas` the counter itself and `refund.Mul(refund, gasPrice)` leaves
the counter multiplied by the gas price. -/
theorem applyMessage_ok_refund_counter {state : σ} {gp : Int} {ret : List UInt8} {used : Int}
    {st' : StateTransition σ} (h : ApplyMessage db env msg state gp = .ok (ret, used) st') :
    ∃ (st₀ : StateTransition σ) (r : VmResult σ), VmCall db env msg st₀ r ∧
      db.getRefund st'.state = if (msg.Gas - r.gas) / 2 > db.getRefund r.state
        then db.getRefund r.state * msg.GasPrice else db.getRefund r.state := by
  obtain ⟨r, hcall, -, -, -, -, -, -, hstate⟩ := applyMessage_ok_phases db env msg h
  refine ⟨_, r, hcall, ?_⟩
  rw [hstate, hdb.getRefund_addBalance, hdb.getRefund_addBalance]
  simp only [hdb.getRefund_addBalance, getRefund_ensureAccount hdb]
  split_ifs with halias
  · rw [hdb.getRefund_setRefund, bigMin_eq_min, min_eq_right (le_of_lt halias)]
  · exact hdb.getRefund_addBalance _ _ _ |>.trans (getRefund_ensureAccount hdb _ _)

end Lawful

theorem applyMessage_ok_fees_paidTransfer :
    ∃ st', ApplyMessage ledgerStateDB refundingEnv paidTransfer fundedLedger 4712388 =
        .ok ([], 16200) st' ∧
      ∃ (st₀ : StateTransition ((Nat → Int) × Int)) (r : VmResult ((Nat → Int) × Int)),
        VmCall ledgerStateDB refundingEnv paidTransfer st₀ r ∧
        (∀ a, ledgerStateDB.getBalance st₀.state a = ledgerStateDB.getBalance fundedLedger a -
          if paidTransfer.From = a then paidTransfer.Gas * paidTransfer.GasPrice else 0) ∧
        ∀ a, ledgerStateDB.getBalance st'.state a = ledgerStateDB.getBalance r.state a +
          (if paidTransfer.From = a then (paidTransfer.Gas - 16200) * paidTransfer.GasPrice else 0) +
          (if refundingEnv.coinbase = a then 16200 * paidTransfer.GasPrice else 0) := by
  obtain ⟨st', h⟩ : ∃ st', ApplyMessage ledgerStateDB refundingEnv paidTransfer fundedLedger 4712388 =
      .ok ([], 16200) st' := ⟨_, rfl⟩
  exact ⟨st', h, applyMessage_ok_fees refundingEnv paidTransfer ledgerStateDB_lawful h⟩

/-- The EVM left 4800 in the counter, below half of the 21000 used, so the
counter ends at 4800 times the gas price. -/
theorem applyMessage_ok_refund_counter_paidTransfer :
    ∃ st', ApplyMessage ledgerStateDB refundingEnv paidTransfer fundedLedger 4712388 =
        .ok ([], 16200) st' ∧ ledgerStateDB.getRefund st'.state = 9600 ∧
      ∃ (st₀ : StateTransition ((Nat → Int) × Int)) (r : VmResult ((Nat → Int) × Int)),
        VmCall ledgerStateDB refundingEnv paidTransfer st₀ r ∧
        ledgerStateDB.getRefund st'.state =
          if (paidTransfer.Gas - r.gas) / 2 > ledgerStateDB.getRefund r.state
          then ledgerStateDB.getRefund r.state * paidTransfer.GasPrice
          else ledgerStateDB.getRefund r.state := by
  have h : ApplyMessage ledgerStateDB refundingEnv paidTransfer fundedLedger 4712388 =
      .ok ([], 16200) _ := rfl
  exact ⟨_, h, rfl, applyMessage_ok_refund_counter refundingEnv paidTransfer ledgerStateDB_lawful h⟩

/-! ### A failed message keeps the gas it bought -/

/-- `buyGas` takes the message's gas from the pool before the intrinsic gas
is checked, and the error return of that check gives none of it back: a
message from a funded sender whose gas limit is positive but below its
intrinsic gas fails with the pool short of the whole limit. The miner's
`commitTransaction` reverts the `StateDB` after such an error, but the pool
is the block's, and stays short. -/
theorem applyMessage_intrinsic_gas_debits_pool (state : σ) (gp : Int)
    (hexist : db.exist state msg.From = true)
    (hnonce : msg.CheckNonce = true → db.getNonce state msg.From = msg.Nonce)
    (hfunds : msg.Gas * msg.GasPrice ≤ db.getBalance state msg.From)
    (hpool : msg.Gas ≤ gp) (hpos : 0 < msg.Gas)
    (hintrinsic : msg.Gas < IntrinsicGas msg.Data (MessageCreatesContract msg)
      (env.chainConfig.IsHomestead env.blockNumber)) :
    ∃ st', ApplyMessage db env msg state gp = .error (.invalidTx .outOfGas) st' ∧
      st'.gp = gp - msg.Gas ∧ st'.gp < gp := by
  have hpre := preCheck_of_funds db msg (NewStateTransition state gp) hexist hnonce hfunds hpool
  refine ⟨⟨gp - msg.Gas, msg.Gas, msg.Gas,
    db.ensureAccount (db.subBalance state msg.From (msg.Gas * msg.GasPrice)) msg.From⟩,
    ?_, rfl, show gp - msg.Gas < gp by omega⟩
  simp only [NewStateTransition] at hpre
  simp [ApplyMessage, map_apply, TransitionDb, bind_apply, NewStateTransition, hpre,
    adaptExcept_apply, useGas, hintrinsic]

end Transition

/-- In a block with the usual limit of 4712388 gas, the failed transfer
leaves 4692388. -/
theorem applyMessage_intrinsic_gas_debits_pool_transfer :
    ∃ st', ApplyMessage constantStateDB idleEnv underpricedTransfer () 4712388 =
      .error (.invalidTx .outOfGas) st' ∧ st'.gp = 4712388 - 20000 ∧ st'.gp < 4712388 :=
  applyMessage_intrinsic_gas_debits_pool constantStateDB idleEnv underpricedTransfer () 4712388
    rfl (fun _ => rfl) (by decide) (by decide) (by decide) (by decide)

end GoEthereum.Core
