import GoEthereum.Vm.Env
import GoEthereum.Vm.JumpTable

/-!
The execution functions of `core/vm/instructions.go`.

Each runs on the machine of the current frame; its Go signature's `*pc` is
an argument, and `execute` returns the value `*pc` has when
the function returns, with the bytes it returns. Only `makePush`, `opJump`
and `opJumpi` write `*pc`; `execute` runs every other function by `withPc`,
which hands `*pc` back untouched.

The operands are popped in the order of the Go source, and a pop on an
empty stack is a panic, as the slice index of `Stack.pop` is.
-/

namespace GoEthereum.Vm

variable {σ : Type}

/-- The result of an execution function that leaves `*pc` alone. -/
def withPc (pc : Nat) (x : VmM σ (List UInt8)) : VmM σ (Nat × List UInt8) := do
  let res ← x
  return (pc, res)

/-- `size` pops, the first popped first. -/
def popN : Nat → VmM σ (List Nat)
  | 0 => pure []
  | n + 1 => do
      let x ← pop
      let xs ← popN n
      return x :: xs

/-- `math.Exp`: square and multiply over the 64-bit words of the exponent,
truncating to 256 bits after every product. -/
def Exp (base exponent : Nat) : Nat :=
  ((List.range (64 * ((Nat.size exponent + 63) / 64))).foldl
    (fun (acc : Nat × Nat) i =>
      (if exponent.testBit i then U256 (acc.1 * acc.2) else acc.1, U256 (acc.2 * acc.2)))
    (1, base)).1

def CallStipend : Nat := 2300

section Arithmetic

def opAdd : VmM σ (List UInt8) := do
  let x ← pop
  let y ← pop
  push (U256 (x + y))
  return []

def opSub : VmM σ (List UInt8) := do
  let x ← pop
  let y ← pop
  push (U256 ((x : Int) - y))
  return []

def opMul : VmM σ (List UInt8) := do
  let x ← pop
  let y ← pop
  push (U256 (x * y))
  return []

def opDiv : VmM σ (List UInt8) := do
  let x ← pop
  let y ← pop
  if y ≠ 0 then push (U256 (x / y)) else push 0
  return []

def opSdiv : VmM σ (List UInt8) := do
  let x := S256 (← pop)
  let y := S256 (← pop)
  if y = 0 then push 0
  else
    let n : Int := if x * y < 0 then -1 else 1
    push (U256 (((x.natAbs / y.natAbs : Nat) : Int) * n))
  return []

def opMod : VmM σ (List UInt8) := do
  let x ← pop
  let y ← pop
  if y = 0 then push 0 else push (U256 (x % y))
  return []

def opSmod : VmM σ (List UInt8) := do
  let x := S256 (← pop)
  let y := S256 (← pop)
  if y = 0 then push 0
  else
    let n : Int := if x < 0 then -1 else 1
    push (U256 (((x.natAbs % y.natAbs : Nat) : Int) * n))
  return []

def opExp : VmM σ (List UInt8) := do
  let base ← pop
  let exponent ← pop
  push (Exp base exponent)
  return []

/-- `opSignExtend`: for a byte index of 31 or more the value stays on the
stack as it is. -/
def opSignExtend : VmM σ (List UInt8) := do
  let back ← pop
  if back < 31 then
    let bit := back * 8 + 7
    let num ← pop
    let mask : Int := 2 ^ bit - 1
    if num.testBit bit then push (U256 (Int.lor num (Int.lnot mask)))
    else push (U256 (Int.land num mask))
  return []

def opNot : VmM σ (List UInt8) := do
  let x ← pop
  push (U256 (Int.lnot x))
  return []

def opLt : VmM σ (List UInt8) := do
  let x ← pop
  let y ← pop
  push (if x < y then 1 else 0)
  return []

def opGt : VmM σ (List UInt8) := do
  let x ← pop
  let y ← pop
  push (if x > y then 1 else 0)
  return []

def opSlt : VmM σ (List UInt8) := do
  let x := S256 (← pop)
  let y := S256 (← pop)
  push (if x < S256 y then 1 else 0)
  return []

def opSgt : VmM σ (List UInt8) := do
  let x := S256 (← pop)
  let y := S256 (← pop)
  push (if x > y then 1 else 0)
  return []

def opEq : VmM σ (List UInt8) := do
  let x ← pop
  let y ← pop
  push (if x = y then 1 else 0)
  return []

def opIszero : VmM σ (List UInt8) := do
  let x ← pop
  push (if x > 0 then 0 else 1)
  return []

def opAnd : VmM σ (List UInt8) := do
  let x ← pop
  let y ← pop
  push (x &&& y)
  return []

def opOr : VmM σ (List UInt8) := do
  let x ← pop
  let y ← pop
  push (x ||| y)
  return []

def opXor : VmM σ (List UInt8) := do
  let x ← pop
  let y ← pop
  push (x ^^^ y)
  return []

def opByte : VmM σ (List UInt8) := do
  let th ← pop
  let val ← pop
  if th < 32 then push ((LeftPadBytes (bigBytes val) 32).getD th 0).toNat else push 0
  return []

def opAddmod : VmM σ (List UInt8) := do
  let x ← pop
  let y ← pop
  let z ← pop
  if z > 0 then push (U256 ((x + y) % z)) else push 0
  return []

def opMulmod : VmM σ (List UInt8) := do
  let x ← pop
  let y ← pop
  let z ← pop
  if z > 0 then push (U256 ((x * y) % z)) else push 0
  return []

end Arithmetic

section Environment

variable (evm : EVM σ) (contract : Contract)

def opSha3 : VmM σ (List UInt8) := do
  let offset ← pop
  let size ← pop
  let data ← memGet offset size
  push (evm.keccak256 data)
  return []

def opAddress : VmM σ (List UInt8) := do
  push contract.address
  return []

def opBalance : VmM σ (List UInt8) := do
  let addr := BigToAddress (← pop)
  let balance := evm.stateDB.getBalance (← getStateDB) addr
  push balance
  return []

def opOrigin : VmM σ (List UInt8) := do
  push evm.origin
  return []

def opCaller : VmM σ (List UInt8) := do
  push contract.callerAddress
  return []

def opCallValue : VmM σ (List UInt8) := do
  push contract.value
  return []

def opCalldataLoad : VmM σ (List UInt8) := do
  push (BytesToBig (getData contract.input (← pop) 32))
  return []

def opCalldataSize : VmM σ (List UInt8) := do
  push contract.input.length
  return []

def opCalldataCopy : VmM σ (List UInt8) := do
  let mOff ← pop
  let cOff ← pop
  let l ← pop
  memSet mOff l (getData contract.input cOff l)
  return []

def opExtCodeSize : VmM σ (List UInt8) := do
  let addr := BigToAddress (← pop)
  push (evm.stateDB.getCodeSize (← getStateDB) addr)
  return []

def opCodeSize : VmM σ (List UInt8) := do
  push contract.code.length
  return []

def opCodeCopy : VmM σ (List UInt8) := do
  let mOff ← pop
  let cOff ← pop
  let l ← pop
  memSet mOff l (getData contract.code cOff l)
  return []

def opExtCodeCopy : VmM σ (List UInt8) := do
  let addr := BigToAddress (← pop)
  let mOff ← pop
  let cOff ← pop
  let l ← pop
  let codeCopy := getData (evm.stateDB.getCode (← getStateDB) addr) cOff l
  memSet mOff l codeCopy
  return []

def opGasprice : VmM σ (List UInt8) := do
  push evm.gasPrice
  return []

def opBlockhash : VmM σ (List UInt8) := do
  let num ← pop
  let n : Int := evm.blockNumber - 257
  if (num : Int) > n ∧ num < evm.blockNumber then push (evm.getHash num) else push 0
  return []

def opCoinbase : VmM σ (List UInt8) := do
  push evm.coinbase
  return []

def opTimestamp : VmM σ (List UInt8) := do
  push (U256 evm.time)
  return []

def opNumber : VmM σ (List UInt8) := do
  push (U256 evm.blockNumber)
  return []

def opDifficulty : VmM σ (List UInt8) := do
  push (U256 evm.difficulty)
  return []

def opGasLimit : VmM σ (List UInt8) := do
  push (U256 evm.gasLimit)
  return []

end Environment

section Memory

variable (evm : EVM σ) (contract : Contract)

def opPop : VmM σ (List UInt8) := do
  let _ ← pop
  return []

def opMload : VmM σ (List UInt8) := do
  let offset ← pop
  let val := BytesToBig (← memGet offset 32)
  push val
  return []

def opMstore : VmM σ (List UInt8) := do
  let mStart ← pop
  let val ← pop
  memSet mStart 32 (BigToBytes val 256)
  return []

def opMstore8 : VmM σ (List UInt8) := do
  let off ← pop
  let val ← pop
  memStoreByte off (val % 256).toUInt8
  return []

def opSload : VmM σ (List UInt8) := do
  let loc := BigToHash (← pop)
  push (evm.stateDB.getState (← getStateDB) contract.address loc)
  return []

def opSstore : VmM σ (List UInt8) := do
  let loc := BigToHash (← pop)
  let val ← pop
  setStateDB (evm.stateDB.setState (← getStateDB) contract.address loc (BigToHash val))
  return []

def opJumpdest : VmM σ (List UInt8) := return []

def opPc (pc : Nat) : VmM σ (List UInt8) := do
  push pc
  return []

def opMsize : VmM σ (List UInt8) := do
  push (← memLen)
  return []

def opGas : VmM σ (List UInt8) := do
  push (← getGas)
  return []

end Memory

section Control

variable (evm : EVM σ) (contract : Contract)

/-- The JUMPDEST check of `opJump` and `opJumpi`, through the cache the
contract shares with its callers. -/
def checkJumpdest (pos : Nat) : VmM σ Unit := do
  let (ok, d) := has (← getDests) contract.codeHash contract.code pos
  setDests d
  if !ok then throw (.error (.invalidJumpDestination (contract.GetOp (pos % 2 ^ 64)) pos))

/-- `opJump`: the new `*pc`. -/
def opJump : VmM σ Nat := do
  let pos ← pop
  checkJumpdest contract pos
  return pos

/-- `opJumpi`: the new `*pc`, the destination or the next byte. -/
def opJumpi (pc : Nat) : VmM σ Nat := do
  let pos ← pop
  let cond ← pop
  if cond ≥ 1 then
    checkJumpdest contract pos
    return pos
  else return pc + 1

/-- `makePush(size, _)`: the `size` bytes after `*pc`, zero-padded past the
end of the code, and the new `*pc` on the last of them. -/
def makePush (size : Nat) (pc : Nat) : VmM σ Nat := do
  let byts := getData contract.code (pc + 1) size
  push (BytesToBig byts)
  return pc + size

def makeDup (size : Nat) : VmM σ (List UInt8) := do
  dup size
  return []

/-- `makeSwap(size)` swaps with item `size + 1` from the top. -/
def makeSwap (size : Nat) : VmM σ (List UInt8) := do
  swap (size + 1)
  return []

def makeLog (size : Nat) : VmM σ (List UInt8) := do
  let mStart ← pop
  let mSize ← pop
  let topics := (← popN size).map BigToHash
  let d ← memGet mStart mSize
  setStateDB (evm.stateDB.addLog (← getStateDB)
    { address := contract.address, topics := topics, data := d, blockNumber := evm.blockNumber })
  return []

def opReturn : VmM σ (List UInt8) := do
  let offset ← pop
  let size ← pop
  memGet offset size

def opStop : VmM σ (List UInt8) := return []

def opSuicide : VmM σ (List UInt8) := do
  let balance := evm.stateDB.getBalance (← getStateDB) contract.address
  let addr := BigToAddress (← pop)
  setStateDB (evm.stateDB.addBalance (← getStateDB) addr balance)
  setStateDB (evm.stateDB.suicide (← getStateDB) contract.address)
  return []

end Control

section Calls

variable (evm : EVM σ) (contract : Contract)

def opCreate : VmM σ (List UInt8) := do
  let value ← pop
  let offset ← pop
  let size ← pop
  let input ← memGet offset size
  let available ← getGas
  let gas := if evm.IsEIP150 then available - available / 64 else available
  let _ ← useGas gas
  let r ← createWith (evm.create contract input gas value)
  if evm.IsHomestead ∧ r.err = some .codeStoreOutOfGas then push 0
  else if r.err.isSome ∧ r.err ≠ some .codeStoreOutOfGas then push 0
  else push r.addr
  return []

/-- The common body of `opCall` and `opCallCode`, which differ only in the
nested call they make. -/
def callLike
    (f : Contract → Nat → List UInt8 → Nat → Nat → σ → Destinations → Except Exit (CallResult σ)) :
    VmM σ (List UInt8) := do
  let gas ← pop
  let addr ← pop
  let value := U256 (← pop)
  let inOffset ← pop
  let inSize ← pop
  let retOffset ← pop
  let retSize ← pop
  let address := BigToAddress addr
  let args ← memGet inOffset inSize
  let gas := if (bigBytes value).length > 0 then gas + CallStipend else gas
  let r ← callWith (f contract address args gas value)
  if r.failed then push 0
  else
    push 1
    memSet retOffset retSize r.ret
  return []

def opCall : VmM σ (List UInt8) := callLike contract evm.call

def opCallCode : VmM σ (List UInt8) := callLike contract evm.callCode

/-- `opDelegateCall`: an invalid opcode before Homestead. -/
def opDelegateCall : VmM σ (List UInt8) := do
  if !evm.IsHomestead then throw (.error (.invalidOpcode OpCode.DELEGATECALL))
  let gas ← pop
  let toValue ← pop
  let inOffset ← pop
  let inSize ← pop
  let outOffset ← pop
  let outSize ← pop
  let toAddr := BigToAddress toValue
  let args ← memGet inOffset inSize
  let r ← callWith (evm.delegateCall contract toAddr args gas)
  if r.failed then push 0
  else
    push 1
    memSet outOffset outSize r.ret
  return []

end Calls

/-- `operation.execute(&pc, env, contract, memory, stack)`: the value of
`*pc` afterwards and the returned bytes. -/
def execute (evm : EVM σ) (contract : Contract) (pc : Nat) :
    ExecutionFunc → VmM σ (Nat × List UInt8)
  | .opAdd => withPc pc opAdd
  | .opSub => withPc pc opSub
  | .opMul => withPc pc opMul
  | .opDiv => withPc pc opDiv
  | .opSdiv => withPc pc opSdiv
  | .opMod => withPc pc opMod
  | .opSmod => withPc pc opSmod
  | .opExp => withPc pc opExp
  | .opSignExtend => withPc pc opSignExtend
  | .opNot => withPc pc opNot
  | .opLt => withPc pc opLt
  | .opGt => withPc pc opGt
  | .opSlt => withPc pc opSlt
  | .opSgt => withPc pc opSgt
  | .opEq => withPc pc opEq
  | .opIszero => withPc pc opIszero
  | .opAnd => withPc pc opAnd
  | .opOr => withPc pc opOr
  | .opXor => withPc pc opXor
  | .opByte => withPc pc opByte
  | .opAddmod => withPc pc opAddmod
  | .opMulmod => withPc pc opMulmod
  | .opSha3 => withPc pc (opSha3 evm)
  | .opAddress => withPc pc (opAddress contract)
  | .opBalance => withPc pc (opBalance evm)
  | .opOrigin => withPc pc (opOrigin evm)
  | .opCaller => withPc pc (opCaller contract)
  | .opCallValue => withPc pc (opCallValue contract)
  | .opCalldataLoad => withPc pc (opCalldataLoad contract)
  | .opCalldataSize => withPc pc (opCalldataSize contract)
  | .opCalldataCopy => withPc pc (opCalldataCopy contract)
  | .opExtCodeSize => withPc pc (opExtCodeSize evm)
  | .opCodeSize => withPc pc (opCodeSize contract)
  | .opCodeCopy => withPc pc (opCodeCopy contract)
  | .opExtCodeCopy => withPc pc (opExtCodeCopy evm)
  | .opGasprice => withPc pc (opGasprice evm)
  | .opBlockhash => withPc pc (opBlockhash evm)
  | .opCoinbase => withPc pc (opCoinbase evm)
  | .opTimestamp => withPc pc (opTimestamp evm)
  | .opNumber => withPc pc (opNumber evm)
  | .opDifficulty => withPc pc (opDifficulty evm)
  | .opGasLimit => withPc pc (opGasLimit evm)
  | .opPop => withPc pc opPop
  | .opMload => withPc pc opMload
  | .opMstore => withPc pc opMstore
  | .opMstore8 => withPc pc opMstore8
  | .opSload => withPc pc (opSload evm contract)
  | .opSstore => withPc pc (opSstore evm contract)
  | .opJump => do
      let pc ← opJump contract
      return (pc, [])
  | .opJumpi => do
      let pc ← opJumpi contract pc
      return (pc, [])
  | .opJumpdest => withPc pc opJumpdest
  | .opPc => withPc pc (opPc pc)
  | .opMsize => withPc pc opMsize
  | .opGas => withPc pc opGas
  | .opCreate => withPc pc (opCreate evm contract)
  | .opCall => withPc pc (opCall evm contract)
  | .opCallCode => withPc pc (opCallCode evm contract)
  | .opDelegateCall => withPc pc (opDelegateCall evm contract)
  | .opReturn => withPc pc opReturn
  | .opStop => withPc pc opStop
  | .opSuicide => withPc pc (opSuicide evm contract)
  | .makeLog size => withPc pc (makeLog evm contract size)
  | .makePush size => do
      let pc ← makePush contract size pc
      return (pc, [])
  | .makeDup size => withPc pc (makeDup size)
  | .makeSwap size => withPc pc (makeSwap size)

end GoEthereum.Vm
