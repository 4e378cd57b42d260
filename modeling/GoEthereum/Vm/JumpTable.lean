import GoEthereum.Vm.Analysis

/-!
The instruction table of `core/vm/jump_table.go`.

Go's table holds function values; here each entry names its execution,
gas and memory-size functions, and `Instructions` gives every name the
meaning of the Go function it stands for. An entry the table leaves at its
zero value (`valid: false`) is `none`. Naming the functions makes the table
data that a decision procedure can read: every fact below that quantifies
over all 256 opcodes is checked entry by entry.
-/

namespace GoEthereum.Vm

/-- The execution functions of `instructions.go`; `makePush size` stands for
`makePush(size, big.NewInt(size))`, whose two arguments every entry gives
the same value. -/
inductive ExecutionFunc where
  | opAdd | opSub | opMul | opDiv | opSdiv | opMod | opSmod | opExp | opSignExtend
  | opNot | opLt | opGt | opSlt | opSgt | opEq | opIszero | opAnd | opOr | opXor | opByte
  | opAddmod | opMulmod | opSha3 | opAddress | opBalance | opOrigin | opCaller | opCallValue
  | opCalldataLoad | opCalldataSize | opCalldataCopy | opExtCodeSize | opCodeSize | opCodeCopy
  | opExtCodeCopy | opGasprice | opBlockhash | opCoinbase | opTimestamp | opNumber
  | opDifficulty | opGasLimit | opPop | opMload | opMstore | opMstore8 | opSload | opSstore
  | opJump | opJumpi | opJumpdest | opPc | opMsize | opGas | opCreate | opCall | opCallCode
  | opDelegateCall | opReturn | opStop | opSuicide
  | makeLog (size : Nat)
  | makePush (size : Nat)
  | makeDup (size : Nat)
  | makeSwap (size : Nat)
  deriving Repr, DecidableEq

/-- The gas functions of `gas_table.go`. -/
inductive GasFunc where
  | constGasFunc (gas : Nat)
  | gasCalldataCopy | gasSStore | gasSha3 | gasCodeCopy | gasExtCodeCopy | gasMLoad
  | gasMStore8 | gasMStore | gasCreate | gasBalance | gasExtCodeSize | gasSLoad | gasExp
  | gasCall | gasCallCode | gasReturn | gasSuicide | gasDelegateCall | gasPush | gasSwap | gasDup
  | makeGasLog (n : Nat)
  deriving Repr, DecidableEq

/-- The memory-size functions of `memory_table.go` that the table uses. -/
inductive MemorySizeFunc where
  | memorySha3 | memoryCalldataCopy | memoryCodeCopy | memoryExtCodeCopy | memoryMLoad
  | memoryMStore8 | memoryMStore | memoryCreate | memoryCall | memoryDelegateCall
  | memoryReturn | memoryLog
  deriving Repr, DecidableEq

/-- The stack check `makeStackFunc(pop, push)` builds. -/
structure StackValidationFunc where
  pop : Nat
  push : Nat
  deriving Repr, DecidableEq

def makeStackFunc (pop push : Nat) : StackValidationFunc := ⟨pop, push⟩

/-- A valid entry of the table. -/
structure Operation where
  execute : ExecutionFunc
  gasCost : GasFunc
  validateStack : StackValidationFunc
  memorySize : Option MemorySizeFunc := none
  halts : Bool := false
  jumps : Bool := false
  deriving Repr, DecidableEq

/-! The step costs of `gas.go` and `params`. -/

def GasQuickStep : Nat := 2
def GasFastestStep : Nat := 3
def GasFastStep : Nat := 5
def GasMidStep : Nat := 8
def GasSlowStep : Nat := 10
def GasExtStep : Nat := 20
def JumpdestGas : Nat := 1

/-- `NewJumpTable`, indexed by the opcode byte. -/
def newJumpTable : Nat → Option Operation
  | 0x00 => some
      { execute := .opStop, gasCost := .constGasFunc 0,
        validateStack := makeStackFunc 0 0, halts := true } -- STOP
  | 0x01 => some
      { execute := .opAdd, gasCost := .constGasFunc GasFastestStep,
        validateStack := makeStackFunc 2 1 } -- ADD
  | 0x02 => some
      { execute := .opMul, gasCost := .constGasFunc GasFastStep,
        validateStack := makeStackFunc 2 1 } -- MUL
  | 0x03 => some
      { execute := .opSub, gasCost := .constGasFunc GasFastestStep,
        validateStack := makeStackFunc 2 1 } -- SUB
  | 0x04 => some
      { execute := .opDiv, gasCost := .constGasFunc GasFastStep,
        validateStack := makeStackFunc 2 1 } -- DIV
  | 0x05 => some
      { execute := .opSdiv, gasCost := .constGasFunc GasFastStep,
        validateStack := makeStackFunc 2 1 } -- SDIV
  | 0x06 => some
      { execute := .opMod, gasCost := .constGasFunc GasFastStep,
        validateStack := makeStackFunc 2 1 } -- MOD
  | 0x07 => some
      { execute := .opSmod, gasCost := .constGasFunc GasFastStep,
        validateStack := makeStackFunc 2 1 } -- SMOD
  | 0x08 => some
      { execute := .opAddmod, gasCost := .constGasFunc GasMidStep,
        validateStack := makeStackFunc 3 1 } -- ADDMOD
  | 0x09 => some
      { execute := .opMulmod, gasCost := .constGasFunc GasMidStep,
        validateStack := makeStackFunc 3 1 } -- MULMOD
  | 0x0a => some
      { execute := .opExp, gasCost := .gasExp,
        validateStack := makeStackFunc 2 1 } -- EXP
  | 0x0b => some
      { execute := .opSignExtend, gasCost := .constGasFunc GasFastStep,
        validateStack := makeStackFunc 2 1 } -- SIGNEXTEND
  | 0x10 => some
      { execute := .opLt, gasCost := .constGasFunc GasFastestStep,
        validateStack := makeStackFunc 2 1 } -- LT
  | 0x11 => some
      { execute := .opGt, gasCost := .constGasFunc GasFastestStep,
        validateStack := makeStackFunc 2 1 } -- GT
  | 0x12 => some
      { execute := .opSlt, gasCost := .constGasFunc GasFastestStep,
        validateStack := makeStackFunc 2 1 } -- SLT
  | 0x13 => some
      { execute := .opSgt, gasCost := .constGasFunc GasFastestStep,
        validateStack := makeStackFunc 2 1 } -- SGT
  | 0x14 => some
      { execute := .opEq, gasCost := .constGasFunc GasFastestStep,
        validateStack := makeStackFunc 2 1 } -- EQ
  | 0x15 => some
      { execute := .opIszero, gasCost := .constGasFunc GasFastestStep,
        validateStack := makeStackFunc 1 1 } -- ISZERO
  | 0x16 => some
      { execute := .opAnd, gasCost := .constGasFunc GasFastestStep,
        validateStack := makeStackFunc 2 1 } -- AND
  | 0x17 => some
      { execute := .opOr, gasCost := .constGasFunc GasFastestStep,
        validateStack := makeStackFunc 2 1 } -- OR
  | 0x18 => some
      { execute := .opXor, gasCost := .constGasFunc GasFastestStep,
        validateStack := makeStackFunc 2 1 } -- XOR
  | 0x19 => some
      { execute := .opNot, gasCost := .constGasFunc GasFastestStep,
        validateStack := makeStackFunc 1 1 } -- NOT
  | 0x1a => some
      { execute := .opByte, gasCost := .constGasFunc GasFastestStep,
        validateStack := makeStackFunc 2 1 } -- BYTE
  | 0x20 => some
      { execute := .opSha3, gasCost := .gasSha3,
        validateStack := makeStackFunc 2 1, memorySize := some .memorySha3 } -- SHA3
  | 0x30 => some
      { execute := .opAddress, gasCost := .constGasFunc GasQuickStep,
        validateStack := makeStackFunc 0 1 } -- ADDRESS
  | 0x31 => some
      { execute := .opBalance, gasCost := .gasBalance,
        validateStack := makeStackFunc 0 1 } -- BALANCE
  | 0x32 => some
      { execute := .opOrigin, gasCost := .constGasFunc GasQuickStep,
        validateStack := makeStackFunc 0 1 } -- ORIGIN
  | 0x33 => some
      { execute := .opCaller, gasCost := .constGasFunc GasQuickStep,
        validateStack := makeStackFunc 0 1 } -- CALLER
  | 0x34 => some
      { execute := .opCallValue, gasCost := .constGasFunc GasQuickStep,
        validateStack := makeStackFunc 0 1 } -- CALLVALUE
  | 0x35 => some
      { execute := .opCalldataLoad, gasCost := .constGasFunc GasFastestStep,
        validateStack := makeStackFunc 1 1 } -- CALLDATALOAD
  | 0x36 => some
      { execute := .opCalldataSize, gasCost := .constGasFunc GasQuickStep,
        validateStack := makeStackFunc 0 1 } -- CALLDATASIZE
  | 0x37 => some
      { execute := .opCalldataCopy, gasCost := .gasCalldataCopy,
        validateStack := makeStackFunc 3 1, memorySize := some .memoryCalldataCopy } -- CALLDATACOPY
  | 0x38 => some
      { execute := .opCodeSize, gasCost := .constGasFunc GasQuickStep,
        validateStack := makeStackFunc 0 1 } -- CODESIZE
  | 0x39 => some
      { execute := .opCodeCopy, gasCost := .gasCodeCopy,
        validateStack := makeStackFunc 3 0, memorySize := some .memoryCodeCopy } -- CODECOPY
  | 0x3a => some
      { execute := .opGasprice, gasCost := .constGasFunc GasQuickStep,
        validateStack := makeStackFunc 0 1 } -- GASPRICE
  | 0x3b => some
      { execute := .opExtCodeSize, gasCost := .gasExtCodeSize,
        validateStack := makeStackFunc 1 1 } -- EXTCODESIZE
  | 0x3c => some
      { execute := .opExtCodeCopy, gasCost := .gasExtCodeCopy,
        validateStack := makeStackFunc 4 0, memorySize := some .memoryExtCodeCopy } -- EXTCODECOPY
  | 0x40 => some
      { execute := .opBlockhash, gasCost := .constGasFunc GasExtStep,
        validateStack := makeStackFunc 1 1 } -- BLOCKHASH
  | 0x41 => some
      { execute := .opCoinbase, gasCost := .constGasFunc GasQuickStep,
        validateStack := makeStackFunc 0 1 } -- COINBASE
  | 0x42 => some
      { execute := .opTimestamp, gasCost := .constGasFunc GasQuickStep,
        validateStack := makeStackFunc 0 1 } -- TIMESTAMP
  | 0x43 => some
      { execute := .opNumber, gasCost := .constGasFunc GasQuickStep,
        validateStack := makeStackFunc 0 1 } -- NUMBER
  | 0x44 => some
      { execute := .opDifficulty, gasCost := .constGasFunc GasQuickStep,
        validateStack := makeStackFunc 0 1 } -- DIFFICULTY
  | 0x45 => some
      { execute := .opGasLimit, gasCost := .constGasFunc GasQuickStep,
        validateStack := makeStackFunc 0 1 } -- GASLIMIT
  | 0x50 => some
      { execute := .opPop, gasCost := .constGasFunc GasQuickStep,
        validateStack := makeStackFunc 1 0 } -- POP
  | 0x51 => some
      { execute := .opMload, gasCost := .gasMLoad,
        validateStack := makeStackFunc 1 1, memorySize := some .memoryMLoad } -- MLOAD
  | 0x52 => some
      { execute := .opMstore, gasCost := .gasMStore,
        validateStack := makeStackFunc 2 0, memorySize := some .memoryMStore } -- MSTORE
  | 0x53 => some
      { execute := .opMstore8, gasCost := .gasMStore8,
        validateStack := makeStackFunc 2 0, memorySize := some .memoryMStore8 } -- MSTORE8
  | 0x54 => some
      { execute := .opSload, gasCost := .gasSLoad,
        validateStack := makeStackFunc 1 1 } -- SLOAD
  | 0x55 => some
      { execute := .opSstore, gasCost := .gasSStore,
        validateStack := makeStackFunc 2 0 } -- SSTORE
  | 0x56 => some
      { execute := .opJump, gasCost := .constGasFunc GasMidStep,
        validateStack := makeStackFunc 1 0, jumps := true } -- JUMP
  | 0x57 => some
      { execute := .opJumpi, gasCost := .constGasFunc GasSlowStep,
        validateStack := makeStackFunc 2 0, jumps := true } -- JUMPI
  | 0x58 => some
      { execute := .opPc, gasCost := .constGasFunc GasQuickStep,
        validateStack := makeStackFunc 0 1 } -- PC
  | 0x59 => some
      { execute := .opMsize, gasCost := .constGasFunc GasQuickStep,
        validateStack := makeStackFunc 0 1 } -- MSIZE
  | 0x5a => some
      { execute := .opGas, gasCost := .constGasFunc GasQuickStep,
        validateStack := makeStackFunc 0 1 } -- GAS
  | 0x5b => some
      { execute := .opJumpdest, gasCost := .constGasFunc JumpdestGas,
        validateStack := makeStackFunc 0 0 } -- JUMPDEST
  | 0x60 => some
      { execute := .makePush 1, gasCost := .gasPush,
        validateStack := makeStackFunc 0 1 } -- PUSH1
  | 0x61 => some
      { execute := .makePush 2, gasCost := .gasPush,
        validateStack := makeStackFunc 0 1 } -- PUSH2
  | 0x62 => some
      { execute := .makePush 3, gasCost := .gasPush,
        validateStack := makeStackFunc 0 1 } -- PUSH3
  | 0x63 => some
      { execute := .makePush 4, gasCost := .gasPush,
        validateStack := makeStackFunc 0 1 } -- PUSH4
  | 0x64 => some
      { execute := .makePush 5, gasCost := .gasPush,
        validateStack := makeStackFunc 0 1 } -- PUSH5
  | 0x65 => some
      { execute := .makePush 6, gasCost := .gasPush,
        validateStack := makeStackFunc 0 1 } -- PUSH6
  | 0x66 => some
      { execute := .makePush 7, gasCost := .gasPush,
        validateStack := makeStackFunc 0 1 } -- PUSH7
  | 0x67 => some
      { execute := .makePush 8, gasCost := .gasPush,
        validateStack := makeStackFunc 0 1 } -- PUSH8
  | 0x68 => some
      { execute := .makePush 9, gasCost := .gasPush,
        validateStack := makeStackFunc 0 1 } -- PUSH9
  | 0x69 => some
      { execute := .makePush 10, gasCost := .gasPush,
        validateStack := makeStackFunc 0 1 } -- PUSH10
  | 0x6a => some
      { execute := .makePush 11, gasCost := .gasPush,
        validateStack := makeStackFunc 0 1 } -- PUSH11
  | 0x6b => some
      { execute := .makePush 12, gasCost := .gasPush,
        validateStack := makeStackFunc 0 1 } -- PUSH12
  | 0x6c => some
      { execute := .makePush 13, gasCost := .gasPush,
        validateStack := makeStackFunc 0 1 } -- PUSH13
  | 0x6d => some
      { execute := .makePush 14, gasCost := .gasPush,
        validateStack := makeStackFunc 0 1 } -- PUSH14
  | 0x6e => some
      { execute := .makePush 15, gasCost := .gasPush,
        validateStack := makeStackFunc 0 1 } -- PUSH15
  | 0x6f => some
      { execute := .makePush 16, gasCost := .gasPush,
        validateStack := makeStackFunc 0 1 } -- PUSH16
  | 0x70 => some
      { execute := .makePush 17, gasCost := .gasPush,
        validateStack := makeStackFunc 0 1 } -- PUSH17
  | 0x71 => some
      { execute := .makePush 18, gasCost := .gasPush,
        validateStack := makeStackFunc 0 1 } -- PUSH18
  | 0x72 => some
      { execute := .makePush 19, gasCost := .gasPush,
        validateStack := makeStackFunc 0 1 } -- PUSH19
  | 0x73 => some
      { execute := .makePush 20, gasCost := .gasPush,
        validateStack := makeStackFunc 0 1 } -- PUSH20
  | 0x74 => some
      { execute := .makePush 21, gasCost := .gasPush,
        validateStack := makeStackFunc 0 1 } -- PUSH21
  | 0x75 => some
      { execute := .makePush 22, gasCost := .gasPush,
        validateStack := makeStackFunc 0 1 } -- PUSH22
  | 0x76 => some
      { execute := .makePush 23, gasCost := .gasPush,
        validateStack := makeStackFunc 0 1 } -- PUSH23
  | 0x77 => some
      { execute := .makePush 24, gasCost := .gasPush,
        validateStack := makeStackFunc 0 1 } -- PUSH24
  | 0x78 => some
      { execute := .makePush 25, gasCost := .gasPush,
        validateStack := makeStackFunc 0 1 } -- PUSH25
  | 0x79 => some
      { execute := .makePush 26, gasCost := .gasPush,
        validateStack := makeStackFunc 0 1 } -- PUSH26
  | 0x7a => some
      { execute := .makePush 27, gasCost := .gasPush,
        validateStack := makeStackFunc 0 1 } -- PUSH27
  | 0x7b => some
      { execute := .makePush 28, gasCost := .gasPush,
        validateStack := makeStackFunc 0 1 } -- PUSH28
  | 0x7c => some
      { execute := .makePush 29, gasCost := .gasPush,
        validateStack := makeStackFunc 0 1 } -- PUSH29
  | 0x7d => some
      { execute := .makePush 30, gasCost := .gasPush,
        validateStack := makeStackFunc 0 1 } -- PUSH30
  | 0x7e => some
      { execute := .makePush 31, gasCost := .gasPush,
        validateStack := makeStackFunc 0 1 } -- PUSH31
  | 0x7f => some
      { execute := .makePush 32, gasCost := .gasPush,
        validateStack := makeStackFunc 0 1 } -- PUSH32
  | 0x80 => some
      { execute := .makeDup 1, gasCost := .gasDup,
        validateStack := makeStackFunc 1 1 } -- DUP1
  | 0x81 => some
      { execute := .makeDup 2, gasCost := .gasDup,
        validateStack := makeStackFunc 2 1 } -- DUP2
  | 0x82 => some
      { execute := .makeDup 3, gasCost := .gasDup,
        validateStack := makeStackFunc 3 1 } -- DUP3
  | 0x83 => some
      { execute := .makeDup 4, gasCost := .gasDup,
        validateStack := makeStackFunc 4 1 } -- DUP4
  | 0x84 => some
      { execute := .makeDup 5, gasCost := .gasDup,
        validateStack := makeStackFunc 5 1 } -- DUP5
  | 0x85 => some
      { execute := .makeDup 6, gasCost := .gasDup,
        validateStack := makeStackFunc 6 1 } -- DUP6
  | 0x86 => some
      { execute := .makeDup 7, gasCost := .gasDup,
        validateStack := makeStackFunc 7 1 } -- DUP7
  | 0x87 => some
      { execute := .makeDup 8, gasCost := .gasDup,
        validateStack := makeStackFunc 8 1 } -- DUP8
  | 0x88 => some
      { execute := .makeDup 9, gasCost := .gasDup,
        validateStack := makeStackFunc 9 1 } -- DUP9
  | 0x89 => some
      { execute := .makeDup 10, gasCost := .gasDup,
        validateStack := makeStackFunc 10 1 } -- DUP10
  | 0x8a => some
      { execute := .makeDup 11, gasCost := .gasDup,
        validateStack := makeStackFunc 11 1 } -- DUP11
  | 0x8b => some
      { execute := .makeDup 12, gasCost := .gasDup,
        validateStack := makeStackFunc 12 1 } -- DUP12
  | 0x8c => some
      { execute := .makeDup 13, gasCost := .gasDup,
        validateStack := makeStackFunc 13 1 } -- DUP13
  | 0x8d => some
      { execute := .makeDup 14, gasCost := .gasDup,
        validateStack := makeStackFunc 14 1 } -- DUP14
  | 0x8e => some
      { execute := .makeDup 15, gasCost := .gasDup,
        validateStack := makeStackFunc 15 1 } -- DUP15
  | 0x8f => some
      { execute := .makeDup 16, gasCost := .gasDup,
        validateStack := makeStackFunc 16 1 } -- DUP16
  | 0x90 => some
      { execute := .makeSwap 1, gasCost := .gasSwap,
        validateStack := makeStackFunc 2 0 } -- SWAP1
  | 0x91 => some
      { execute := .makeSwap 2, gasCost := .gasSwap,
        validateStack := makeStackFunc 3 0 } -- SWAP2
  | 0x92 => some
      { execute := .makeSwap 3, gasCost := .gasSwap,
        validateStack := makeStackFunc 4 0 } -- SWAP3
  | 0x93 => some
      { execute := .makeSwap 4, gasCost := .gasSwap,
        validateStack := makeStackFunc 5 0 } -- SWAP4
  | 0x94 => some
      { execute := .makeSwap 5, gasCost := .gasSwap,
        validateStack := makeStackFunc 6 0 } -- SWAP5
  | 0x95 => some
      { execute := .makeSwap 6, gasCost := .gasSwap,
        validateStack := makeStackFunc 7 0 } -- SWAP6
  | 0x96 => some
      { execute := .makeSwap 7, gasCost := .gasSwap,
        validateStack := makeStackFunc 8 0 } -- SWAP7
  | 0x97 => some
      { execute := .makeSwap 8, gasCost := .gasSwap,
        validateStack := makeStackFunc 9 0 } -- SWAP8
  | 0x98 => some
      { execute := .makeSwap 9, gasCost := .gasSwap,
        validateStack := makeStackFunc 10 0 } -- SWAP9
  | 0x99 => some
      { execute := .makeSwap 10, gasCost := .gasSwap,
        validateStack := makeStackFunc 11 0 } -- SWAP10
  | 0x9a => some
      { execute := .makeSwap 11, gasCost := .gasSwap,
        validateStack := makeStackFunc 12 0 } -- SWAP11
  | 0x9b => some
      { execute := .makeSwap 12, gasCost := .gasSwap,
        validateStack := makeStackFunc 13 0 } -- SWAP12
  | 0x9c => some
      { execute := .makeSwap 13, gasCost := .gasSwap,
        validateStack := makeStackFunc 14 0 } -- SWAP13
  | 0x9d => some
      { execute := .makeSwap 14, gasCost := .gasSwap,
        validateStack := makeStackFunc 15 0 } -- SWAP14
  | 0x9e => some
      { execute := .makeSwap 15, gasCost := .gasSwap,
        validateStack := makeStackFunc 16 0 } -- SWAP15
  | 0x9f => some
      { execute := .makeSwap 16, gasCost := .gasSwap,
        validateStack := makeStackFunc 17 0 } -- SWAP16
  | 0xa0 => some
      { execute := .makeLog 0, gasCost := .makeGasLog 0,
        validateStack := makeStackFunc 2 0, memorySize := some .memoryLog } -- LOG0
  | 0xa1 => some
      { execute := .makeLog 1, gasCost := .makeGasLog 1,
        validateStack := makeStackFunc 3 0, memorySize := some .memoryLog } -- LOG1
  | 0xa2 => some
      { execute := .makeLog 2, gasCost := .makeGasLog 2,
        validateStack := makeStackFunc 4 0, memorySize := some .memoryLog } -- LOG2
  | 0xa3 => some
      { execute := .makeLog 3, gasCost := .makeGasLog 3,
        validateStack := makeStackFunc 5 0, memorySize := some .memoryLog } -- LOG3
  | 0xa4 => some
      { execute := .makeLog 4, gasCost := .makeGasLog 4,
        validateStack := makeStackFunc 6 0, memorySize := some .memoryLog } -- LOG4
  | 0xf0 => some
      { execute := .opCreate, gasCost := .gasCreate,
        validateStack := makeStackFunc 3 1, memorySize := some .memoryCreate } -- CREATE
  | 0xf1 => some
      { execute := .opCall, gasCost := .gasCall,
        validateStack := makeStackFunc 7 1, memorySize := some .memoryCall } -- CALL
  | 0xf2 => some
      { execute := .opCallCode, gasCost := .gasCallCode,
        validateStack := makeStackFunc 7 1, memorySize := some .memoryCall } -- CALLCODE
  | 0xf3 => some
      { execute := .opReturn, gasCost := .gasReturn,
        validateStack := makeStackFunc 2 0, memorySize := some .memoryReturn, halts := true } -- RETURN
  | 0xf4 => some
      { execute := .opDelegateCall, gasCost := .gasDelegateCall,
        validateStack := makeStackFunc 6 1, memorySize := some .memoryDelegateCall } -- DELEGATECALL
  | 0xff => some
      { execute := .opSuicide, gasCost := .gasSuicide,
        validateStack := makeStackFunc 1 0, halts := true } -- SUICIDE
  | _ => none

end GoEthereum.Vm
