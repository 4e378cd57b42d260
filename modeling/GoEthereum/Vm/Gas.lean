import GoEthereum.Vm.Env
import GoEthereum.Vm.JumpTable

/-!
The memory-size functions of `core/vm/memory_table.go` and the gas
functions of `core/vm/gas_table.go` and `core/vm/gas.go`.

Both read operands with `Back(n)`, which panics past the bottom of the
stack. A gas function returns a `*big.Int` that can be negative only in
`callGas`, so costs are integers. `gasCall` and its kin write the gas they
grant the callee over the top item, as Go does; that item is negative only
when the cost exceeds the gas the contract has, and the run then ends with
`ErrOutOfGas` before the item is read again.
-/

namespace GoEthereum.Vm

variable {σ : Type}

/-! The constants of `params/protocol_params.go` the gas functions use. -/

def MemoryGas : Nat := 3
def QuadCoeffDiv : Nat := 512
def CopyGas : Nat := 3
def LogGas : Nat := 375
def LogTopicGas : Nat := 375
def LogDataGas : Nat := 8
def Sha3Gas : Nat := 30
def Sha3WordGas : Nat := 6
def CreateGas : Nat := 32000
def SstoreSetGas : Nat := 20000
def SstoreClearGas : Nat := 5000
def SstoreResetGas : Nat := 5000
def SstoreRefundGas : Nat := 15000
def CallNewAccountGas : Nat := 25000
def CallValueTransferGas : Nat := 9000
def SuicideRefundGas : Nat := 24000
def StackLimit : Nat := 1024

/-- `memorySize(stack)` of each memory-size function. -/
def memorySize : MemorySizeFunc → VmM σ Nat
  | .memorySha3 => do return calcMemSize (← back 0) (← back 1)
  | .memoryCalldataCopy => do return calcMemSize (← back 0) (← back 2)
  | .memoryCodeCopy => do return calcMemSize (← back 0) (← back 2)
  | .memoryExtCodeCopy => do return calcMemSize (← back 1) (← back 3)
  | .memoryMLoad => do return calcMemSize (← back 0) 32
  | .memoryMStore8 => do return calcMemSize (← back 0) 1
  | .memoryMStore => do return calcMemSize (← back 0) 32
  | .memoryCreate => do return calcMemSize (← back 1) (← back 2)
  | .memoryCall => do
      let x := calcMemSize (← back 5) (← back 6)
      let y := calcMemSize (← back 3) (← back 4)
      return BigMax x y
  | .memoryDelegateCall => do
      let x := calcMemSize (← back 4) (← back 5)
      let y := calcMemSize (← back 2) (← back 3)
      return BigMax x y
  | .memoryReturn => do return calcMemSize (← back 0) (← back 1)
  | .memoryLog => do
      let mSize ← back 1
      let mStart ← back 0
      return calcMemSize mStart mSize

/-- `memoryGasCost(mem, newMemSize)`: the price of growing the memory to
`newMemSize` bytes; a `nil` size is dereferenced, which panics. -/
def memoryGasCost (newMemSize : Option Nat) : VmM σ Nat := do
  match newMemSize with
  | none => throw .panic
  | some newMemSize =>
      let len ← memLen
      if newMemSize > 0 ∧ newMemSize > len then
        let newMemSizeWords := toWordSize newMemSize
        let oldSize := toWordSize len
        let oldTotalFee := oldSize * MemoryGas + oldSize ^ 2 / QuadCoeffDiv
        let newTotalFee := newMemSizeWords * MemoryGas + newMemSizeWords ^ 2 / QuadCoeffDiv
        return newTotalFee - oldTotalFee
      else return 0

/-- `callGas`: after EIP-150 (a gas table that prices `CreateBySuicide`) the
callee gets at most all but one 64th of what is left; `/` on `Int` rounds
down, as `big.Int.Div` does for a positive divisor. -/
def callGas (gasTable : GasTable) (availableGas base callCost : Int) : Int :=
  if gasTable.createBySuicide.isSome then
    let availableGas := availableGas - base
    let g := availableGas - availableGas / 64
    if g < callCost then g else callCost
  else callCost

section GasFuncs

variable (gt : GasTable) (evm : EVM σ) (contract : Contract) (memorySize : Option Nat)

def gasCalldataCopy : VmM σ Int := do
  let gas := (← memoryGasCost memorySize) + GasFastestStep
  let words := toWordSize (← back 2)
  return gas + words * CopyGas

def gasSStore : VmM σ Int := do
  let y ← back 1
  let x ← back 0
  let s ← getStateDB
  let val := evm.stateDB.getState s contract.address (BigToHash x)
  if val = 0 ∧ BigToHash y ≠ 0 then return SstoreSetGas
  else if val ≠ 0 ∧ BigToHash y = 0 then
    setStateDB (evm.stateDB.addRefund s SstoreRefundGas)
    return SstoreClearGas
  else return SstoreResetGas

def makeGasLog (n : Nat) : VmM σ Int := do
  let mSize ← back 1
  let gas := (← memoryGasCost memorySize) + LogGas
  return gas + n * LogTopicGas + mSize * LogDataGas

def gasSha3 : VmM σ Int := do
  let gas := (← memoryGasCost memorySize) + Sha3Gas
  let words := toWordSize (← back 1)
  return gas + words * Sha3WordGas

def gasCodeCopy : VmM σ Int := do
  let gas := (← memoryGasCost memorySize) + GasFastestStep
  let words := toWordSize (← back 2)
  return gas + words * CopyGas

def gasExtCodeCopy : VmM σ Int := do
  let gas := (← memoryGasCost memorySize) + gt.extcodeCopy
  let words := toWordSize (← back 3)
  return gas + words * CopyGas

def gasMLoad : VmM σ Int := do return GasFastestStep + (← memoryGasCost memorySize)

def gasMStore8 : VmM σ Int := do return GasFastestStep + (← memoryGasCost memorySize)

def gasMStore : VmM σ Int := do return GasFastestStep + (← memoryGasCost memorySize)

def gasCreate : VmM σ Int := do return CreateGas + (← memoryGasCost memorySize)

def gasBalance : VmM σ Int := return gt.balance

def gasExtCodeSize : VmM σ Int := return gt.extcodeSize

def gasSLoad : VmM σ Int := return gt.sLoad

/-- `gasExp` reads the exponent as `stack.data[stack.len()-2]`. -/
def gasExp : VmM σ Int := do
  let expByteLen := (Nat.size (← back 1) + 7) / 8
  return expByteLen * gt.expByte + GasSlowStep

/-- The end of `gasCall`, `gasCallCode` and `gasDelegateCall`: the callee's
gas replaces the top item and is added to the cost. -/
def grantCallGas (gas : Int) : VmM σ Int := do
  let cg := callGas gt (← getGas) gas (← back 0)
  setTop cg.toNat
  return gas + cg

def gasCall : VmM σ Int := do
  let transfersValue := (← back 2) > 0
  let address := BigToAddress (← back 1)
  let s ← getStateDB
  let newAccount :=
    if evm.IsEIP158 then evm.stateDB.empty s address ∧ transfersValue
    else ¬ evm.stateDB.exist s address
  let gas : Int := gt.calls + (if newAccount then CallNewAccountGas else 0)
    + (if transfersValue then CallValueTransferGas else 0)
  grantCallGas gt (gas + (← memoryGasCost memorySize))

def gasCallCode : VmM σ Int := do
  let gas : Int := gt.calls + (if (← back 2) > 0 then CallValueTransferGas else 0)
  grantCallGas gt (gas + (← memoryGasCost memorySize))

def gasReturn : VmM σ Int := do return (← memoryGasCost memorySize)

/-- `gasSuicide`; the price of a suicide that creates an account is read
from the gas table, whose `nil` entry panics. -/
def gasSuicide : VmM σ Int := do
  let mut gas : Int := 0
  if evm.IsEIP150 then
    gas := gt.suicide
    let address := BigToAddress (← back 0)
    let s ← getStateDB
    let createsAccount :=
      if evm.IsEIP158 then
        evm.stateDB.empty s address ∧ evm.stateDB.getBalance s contract.address > 0
      else ¬ evm.stateDB.exist s address
    if createsAccount then
      match gt.createBySuicide with
      | some c => gas := gas + c
      | none => throw .panic
  let s ← getStateDB
  if ¬ evm.stateDB.hasSuicided s contract.address then
    setStateDB (evm.stateDB.addRefund s SuicideRefundGas)
  return gas

def gasDelegateCall : VmM σ Int := do
  grantCallGas gt (gt.calls + (← memoryGasCost memorySize))

def gasPush : VmM σ Int := return GasFastestStep

def gasSwap : VmM σ Int := return GasFastestStep

def gasDup : VmM σ Int := return GasFastestStep

end GasFuncs

/-- `operation.gasCost(gasTable, env, contract, stack, mem, memorySize)`. -/
def gasCost (gt : GasTable) (evm : EVM σ) (contract : Contract) (memorySize : Option Nat) :
    GasFunc → VmM σ Int
  | .constGasFunc gas => return gas
  | .gasCalldataCopy => gasCalldataCopy memorySize
  | .gasSStore => gasSStore evm contract
  | .makeGasLog n => makeGasLog memorySize n
  | .gasSha3 => gasSha3 memorySize
  | .gasCodeCopy => gasCodeCopy memorySize
  | .gasExtCodeCopy => gasExtCodeCopy gt memorySize
  | .gasMLoad => gasMLoad memorySize
  | .gasMStore8 => gasMStore8 memorySize
  | .gasMStore => gasMStore memorySize
  | .gasCreate => gasCreate memorySize
  | .gasBalance => gasBalance gt
  | .gasExtCodeSize => gasExtCodeSize gt
  | .gasSLoad => gasSLoad gt
  | .gasExp => gasExp gt
  | .gasCall => gasCall gt evm memorySize
  | .gasCallCode => gasCallCode gt memorySize
  | .gasReturn => gasReturn memorySize
  | .gasSuicide => gasSuicide gt evm contract
  | .gasDelegateCall => gasDelegateCall gt memorySize
  | .gasPush => gasPush
  | .gasSwap => gasSwap
  | .gasDup => gasDup

/-- `makeStackFunc(pop, push)(stack)`: enough items for the pops, and room
for the pushes below `StackLimit`. -/
def validateStack (v : StackValidationFunc) : VmM σ Unit := fun m =>
  if m.stack.length < v.pop then .error (.error (.stackUnderflow m.stack.length v.pop)) m
  else if v.push > 0 ∧ m.stack.length - v.pop + v.push > StackLimit then
    .error (.error (.stackLimitReached m.stack.length StackLimit)) m
  else .ok () m

end GoEthereum.Vm
