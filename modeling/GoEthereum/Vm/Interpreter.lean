import GoEthereum.Vm.Instructions
import GoEthereum.Vm.Gas

/-!
`Interpreter.Run` of `core/vm/vm.go`, with gas metering on and no tracer.

One iteration of the loop is `step`: fetch the opcode at `pc`, look up its
table entry, `prepare` the operation (check the stack, compute and pay for
the memory it needs, grow the memory), execute it, and move `pc` on unless
the operation halts or jumps (`afterExecute`). `runLoop` iterates `step` with fuel, which stands in for
the loop running until an operation ends it (the abort flag, which another
goroutine may set, is never set here). `Visits` says at which machine
states the loop fetches an opcode; it unfolds exactly as `runLoop` does.
-/

namespace GoEthereum.Vm

variable {σ : Type}

/-- How an iteration of the loop ends: at the next `pc`, or returning. -/
inductive Next where
  | continue (pc : Nat)
  | halt (ret : List UInt8)
  deriving Repr, DecidableEq

section Run

variable (evm : EVM σ) (gt : GasTable) (contract : Contract)

/-- The memory an operation needs, rounded up to whole words. -/
def wordMemorySize (operation : Operation) : VmM σ (Option Nat) :=
  match operation.memorySize with
  | none => pure none
  | some f => do
      let size ← memorySize f
      return some (toWordSize size * 32)

/-- What the loop does for an operation before executing it: check the
stack, compute the memory it needs, pay for it, and grow the memory. -/
def prepare (operation : Operation) : VmM σ Unit := do
  validateStack operation.validateStack
  let memorySize ← wordMemorySize operation
  let cost ← gasCost gt evm contract memorySize operation.gasCost
  if !(← useGas cost) then throw (.error .outOfGas)
  match memorySize with
  | some size => resize (size % 2 ^ 64)
  | none => pure ()

/-- How the loop goes on after an operation executed and left `*pc` at
`pc`: it returns, stays where the operation jumped, or moves on a byte. -/
def afterExecute (operation : Operation) (pc : Nat) (res : List UInt8) : Next :=
  if operation.halts then .halt res
  else if operation.jumps then .continue pc
  else .continue (pc + 1)

/-- One iteration of `Run`'s loop at `pc`. -/
def step (pc : Nat) : VmM σ Next := do
  let op := contract.GetOp pc
  match newJumpTable op.toNat with
  | none => throw (.error (.invalidOpcode op))
  | some operation =>
      prepare evm gt contract operation
      let (pc, res) ← execute evm contract pc operation.execute
      return afterExecute operation pc res

/-- The loop of `Run` from `pc`, for at most `fuel` iterations. -/
def runLoop : Nat → Nat → VmM σ (List UInt8)
  | 0, _ => throw .outOfFuel
  | fuel + 1, pc => do
      match ← step evm gt contract pc with
      | .halt ret => return ret
      | .continue pc => runLoop fuel pc

/-- `RunPrecompiledContract`. -/
def runPrecompiledContract (p : PrecompiledContract) (input : List UInt8) :
    VmM σ (List UInt8) := do
  if ← useGas (p.requiredGas input.length) then return p.run input
  else throw (.error .outOfGas)

end Run

/-- `Interpreter.Run(contract, input)` on a fresh stack and memory, with the
contract's gas, the state and the JUMPDEST cache of `m`. -/
def run (fuel : Nat) (evm : EVM σ) (contract : Contract) (input : List UInt8) :
    VmM σ (List UInt8) := fun m =>
  let contract := { contract with input := input }
  let m := { m with stack := [], memory := [] }
  match contract.codeAddr.bind evm.precompiled with
  | some p => runPrecompiledContract p input m
  | none =>
      if contract.code = [] then .ok [] m
      else runLoop evm evm.gasTable contract fuel 0 m

end GoEthereum.Vm
