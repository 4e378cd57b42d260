import GoEthereum.Vm.Common
import GoEthereum.Vm.Machine

/-!
What an EVM run reads besides its own frame: the block context, the chain
rules and gas prices in force (`params/config.go`, `params/gas_table.go`),
the `StateDB` interface (`core/vm/interface.go`) and the nested calls of
`core/vm/environment.go`.

The state is a type parameter `σ` with the interface's operations on it, so
every result holds for every implementation of the interface. The nested
calls are fields of `EVM`: each takes the caller's state and JUMPDEST cache
(which a child contract shares with its parent) and hands back the new ones,
or the panic that ends the whole run. `GoEthereum.Vm.Calls` builds them from
runs of the interpreter itself.
-/

namespace GoEthereum.Vm

/-- `params.GasTable`; a `nil` `CreateBySuicide` is `none`. -/
structure GasTable where
  extcodeSize : Nat
  extcodeCopy : Nat
  balance : Nat
  sLoad : Nat
  calls : Nat
  suicide : Nat
  expByte : Nat
  createBySuicide : Option Nat
  deriving Repr, DecidableEq

def GasTableHomestead : GasTable :=
  { extcodeSize := 20, extcodeCopy := 20, balance := 20, sLoad := 50, calls := 40,
    suicide := 0, expByte := 10, createBySuicide := none }

def GasTableHomesteadGasRepriceFork : GasTable :=
  { extcodeSize := 700, extcodeCopy := 700, balance := 400, sLoad := 200, calls := 700,
    suicide := 5000, expByte := 10, createBySuicide := some 25000 }

def GasTableEIP158 : GasTable :=
  { extcodeSize := 700, extcodeCopy := 700, balance := 400, sLoad := 200, calls := 700,
    suicide := 5000, expByte := 50, createBySuicide := some 25000 }

/-- The fork blocks of `params.ChainConfig` the interpreter consults. -/
structure ChainConfig where
  homesteadBlock : Option Nat
  eip150Block : Option Nat
  eip158Block : Option Nat
  deriving Repr, DecidableEq

/-- `isForked`: the fork is scheduled and `num` has reached it. -/
def isForked (block : Option Nat) (num : Nat) : Bool :=
  match block with
  | some b => b ≤ num
  | none => false

namespace ChainConfig

def IsHomestead (c : ChainConfig) (num : Nat) : Bool := isForked c.homesteadBlock num

def IsEIP150 (c : ChainConfig) (num : Nat) : Bool := isForked c.eip150Block num

def IsEIP158 (c : ChainConfig) (num : Nat) : Bool := isForked c.eip158Block num

def GasTable (c : ChainConfig) (num : Nat) : Vm.GasTable :=
  if isForked c.eip158Block num then GasTableEIP158
  else if isForked c.eip150Block num then GasTableHomesteadGasRepriceFork
  else GasTableHomestead

end ChainConfig

/-- `types.Log` as `makeLog` fills it. -/
structure Log where
  address : Nat
  topics : List Nat
  data : List UInt8
  blockNumber : Nat

/-- The `StateDB` operations the instructions and gas functions use;
addresses, storage keys and values are numbers. -/
structure StateDB (σ : Type) where
  createAccount : σ → Nat → σ
  getBalance : σ → Nat → Nat
  addBalance : σ → Nat → Nat → σ
  getNonce : σ → Nat → Nat
  setNonce : σ → Nat → Nat → σ
  getCodeHash : σ → Nat → Nat
  getCode : σ → Nat → List UInt8
  setCode : σ → Nat → List UInt8 → σ
  getCodeSize : σ → Nat → Nat
  getState : σ → Nat → Nat → Nat
  setState : σ → Nat → Nat → Nat → σ
  addRefund : σ → Nat → σ
  suicide : σ → Nat → σ
  hasSuicided : σ → Nat → Bool
  exist : σ → Nat → Bool
  empty : σ → Nat → Bool
  addLog : σ → Log → σ

/-- The `Contract` a run executes. Its gas and its JUMPDEST cache are part
of the `Machine`, since the run changes them. -/
structure Contract where
  callerAddress : Nat
  /-- `self.Address()` -/
  address : Nat
  value : Nat
  code : List UInt8
  codeHash : Nat
  codeAddr : Option Nat
  input : List UInt8

/-- `Contract.GetOp`: the byte at `n`, and STOP past the end of the code. -/
def Contract.GetOp (c : Contract) (n : Nat) : OpCode := c.code[n]?.getD 0

/-- What a nested `Call`, `CallCode` or `DelegateCall` hands back. -/
structure CallResult (σ : Type) where
  ret : List UInt8
  /-- `err != nil` -/
  failed : Bool
  state : σ
  dests : Destinations
  /-- the gas the callee returns to the caller when it finishes -/
  gasLeft : Nat

/-- The errors of `EVM.Create` that `opCreate` tells apart. -/
inductive CreateError where
  | codeStoreOutOfGas
  | other
  deriving Repr, DecidableEq

structure CreateResult (σ : Type) where
  addr : Nat
  err : Option CreateError
  state : σ
  dests : Destinations
  gasLeft : Nat

/-- A precompiled contract: its price for an input length, and its output. -/
structure PrecompiledContract where
  requiredGas : Nat → Nat
  run : List UInt8 → List UInt8

/-- The `EVM` a run belongs to. `keccak256` is `BytesToBig` of
`crypto.Keccak256`. -/
structure EVM (σ : Type) where
  origin : Nat
  gasPrice : Nat
  coinbase : Nat
  gasLimit : Nat
  blockNumber : Nat
  time : Nat
  difficulty : Nat
  getHash : Nat → Nat
  /-- `Context.CanTransfer(db, addr, amount)` -/
  canTransfer : σ → Nat → Nat → Bool
  /-- `Context.Transfer(db, sender, recipient, amount)` -/
  transfer : σ → Nat → Nat → Nat → σ
  chainConfig : ChainConfig
  stateDB : StateDB σ
  keccak256 : List UInt8 → Nat
  /-- `crypto.CreateAddress(b, nonce)` as a number -/
  createAddress : Nat → Nat → Nat
  /-- `PrecompiledContracts` -/
  precompiled : Nat → Option PrecompiledContract
  /-- `Call(caller, addr, input, gas, value)` -/
  call : Contract → Nat → List UInt8 → Nat → Nat → σ → Destinations → Except Exit (CallResult σ)
  /-- `CallCode(caller, addr, input, gas, value)` -/
  callCode : Contract → Nat → List UInt8 → Nat → Nat → σ → Destinations →
    Except Exit (CallResult σ)
  /-- `DelegateCall(caller, addr, input, gas)` -/
  delegateCall : Contract → Nat → List UInt8 → Nat → σ → Destinations → Except Exit (CallResult σ)
  /-- `Create(caller, code, gas, value)` -/
  create : Contract → List UInt8 → Nat → Nat → σ → Destinations → Except Exit (CreateResult σ)

namespace EVM

variable {σ : Type} (evm : EVM σ)

def IsHomestead : Bool := evm.chainConfig.IsHomestead evm.blockNumber

def IsEIP150 : Bool := evm.chainConfig.IsEIP150 evm.blockNumber

def IsEIP158 : Bool := evm.chainConfig.IsEIP158 evm.blockNumber

/-- The gas table `NewInterpreter` takes for the block. -/
def gasTable : GasTable := evm.chainConfig.GasTable evm.blockNumber

end EVM

/-- A state with nothing in it: no account exists, has a balance or code. -/
def emptyStateDB : StateDB Unit where
  createAccount s _ := s
  getBalance _ _ := 0
  addBalance s _ _ := s
  getNonce _ _ := 0
  setNonce s _ _ := s
  getCodeHash _ _ := 0
  getCode _ _ := []
  setCode s _ _ := s
  getCodeSize _ _ := 0
  getState _ _ _ := 0
  setState s _ _ _ := s
  addRefund s _ := s
  suicide s _ := s
  hasSuicided _ _ := false
  exist _ _ := false
  empty _ _ := true
  addLog s _ := s

/-- An EVM over the empty state at block 0 of a chain without forks, whose
nested calls return at once with no output and give all their gas back, as
they do under `NoRecursion`. -/
def noRecursionEVM : EVM Unit where
  origin := 0
  gasPrice := 0
  coinbase := 0
  gasLimit := 0
  blockNumber := 0
  time := 0
  difficulty := 0
  getHash _ := 0
  canTransfer _ _ _ := true
  transfer s _ _ _ := s
  chainConfig := ⟨none, none, none⟩
  stateDB := emptyStateDB
  keccak256 _ := 0
  createAddress _ _ := 0
  precompiled _ := none
  call _ _ _ gas _ s d := .ok ⟨[], false, s, d, gas⟩
  callCode _ _ _ gas _ s d := .ok ⟨[], false, s, d, gas⟩
  delegateCall _ _ _ gas s d := .ok ⟨[], false, s, d, gas⟩
  create _ _ gas _ s d := .ok ⟨0, none, s, d, gas⟩

/-! ### Nested calls from the machine -/

variable {σ : Type}

/-- Runs a nested call on the frame's state and cache; the callee's unused
gas goes back to the caller, and a panic in the callee ends the caller too. -/
def callWith (f : σ → Destinations → Except Exit (CallResult σ)) : VmM σ (CallResult σ) :=
  fun m =>
    match f m.state m.dests with
    | .ok r => .ok r { m with state := r.state, dests := r.dests, gas := m.gas + r.gasLeft }
    | .error e => .error e m

def createWith (f : σ → Destinations → Except Exit (CreateResult σ)) :
    VmM σ (CreateResult σ) := fun m =>
  match f m.state m.dests with
  | .ok r => .ok r { m with state := r.state, dests := r.dests, gas := m.gas + r.gasLeft }
  | .error e => .error e m

end GoEthereum.Vm
