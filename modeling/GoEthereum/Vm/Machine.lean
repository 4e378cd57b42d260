import GoEthereum.Data.Splice
import GoEthereum.Data.StateM

/-!
What one run of `Interpreter.Run` mutates (`core/vm/stack.go`,
`core/vm/memory.go`, `core/vm/contract.go`): the operand stack, the memory,
the contract's gas, the `StateDB` (a type parameter `σ`) and the
`jumpdests` cache that a contract shares with its callers.

The stack is a list with the top item first, so `Back(n)` is index `n` and
the `data[len-k]` of `swap` and `dup` is index `k - 1`. A Go runtime panic
(an index out of range, `"INVALID memory: store empty"`) is the exit
`panic`, which no caller recovers. Memory slices are bounded by the store's
length; Go bounds them by its capacity, which `append` may have made
larger, so the model panics on at least as many accesses as Go does.
-/

namespace GoEthereum.Vm

/-- `destinations`: for each code hash, the JUMPDEST positions of that code. -/
abbrev Destinations := Nat → Option (List Nat)

/-- The errors `Run` and the instructions return. -/
inductive VmError where
  | invalidOpcode (op : UInt8)
  | stackUnderflow (len n : Nat)
  | stackLimitReached (len limit : Nat)
  | outOfGas
  | invalidJumpDestination (nop : UInt8) (pos : Nat)
  deriving Repr, DecidableEq

/-- How a computation leaves the interpreter early: a returned error, a
runtime panic, or (only in the model) the end of the loop's fuel. -/
inductive Exit where
  | error (e : VmError)
  | panic
  | outOfFuel
  deriving Repr, DecidableEq

structure Machine (σ : Type) where
  stack : List Nat
  memory : List UInt8
  /-- `contract.Gas` -/
  gas : Nat
  state : σ
  /-- `contract.jumpdests` -/
  dests : Destinations

abbrev VmM (σ : Type) := EStateM Exit (Machine σ)

variable {σ : Type}

/-! ### `Stack` -/

def pop : VmM σ Nat := fun m =>
  match m.stack with
  | x :: rest => .ok x { m with stack := rest }
  | [] => .error .panic m

def push (d : Nat) : VmM σ Unit := fun m => .ok () { m with stack := d :: m.stack }

/-- `Back(n)`: the `n`th item below the top. -/
def back (n : Nat) : VmM σ Nat := fun m =>
  match m.stack[n]? with
  | some x => .ok x m
  | none => .error .panic m

/-- `stack.data[stack.len()-1] = d`. -/
def setTop (d : Nat) : VmM σ Unit := fun m =>
  match m.stack with
  | _ :: rest => .ok () { m with stack := d :: rest }
  | [] => .error .panic m

/-- `swap(n)`: exchanges `data[len-n]` with the top. -/
def swap (n : Nat) : VmM σ Unit := fun m =>
  if h : 0 < n ∧ n ≤ m.stack.length then
    let top := m.stack[0]
    let other := m.stack[n - 1]
    .ok () { m with stack := (m.stack.set 0 other).set (n - 1) top }
  else .error .panic m

/-- `dup(n)`: pushes a copy of `data[len-n]`. -/
def dup (n : Nat) : VmM σ Unit := fun m =>
  if h : 0 < n ∧ n ≤ m.stack.length then
    .ok () { m with stack := m.stack[n - 1] :: m.stack }
  else .error .panic m

/-! ### `Memory` -/

/-- `Memory.Set`: writes `value`, cut to `size` bytes, at `offset`. -/
def memSet (offset size : Nat) (value : List UInt8) : VmM σ Unit := fun m =>
  if size > m.memory.length then .error .panic m
  else if size = 0 then .ok () m
  else if offset + size > m.memory.length then .error .panic m
  else .ok () { m with memory := (Splice.copyAt m.memory offset (value.take size)).1 }

/-- `Memory.Get` and `Memory.GetPtr`: `size` bytes from `offset`, and no bytes
at all if `offset` is past the end. -/
def memGet (offset size : Nat) : VmM σ (List UInt8) := fun m =>
  if size = 0 then .ok [] m
  else if m.memory.length > offset then
    if offset + size > m.memory.length then .error .panic m
    else .ok ((m.memory.drop offset).take size) m
  else .ok [] m

/-- `memory.store[off] = b`. -/
def memStoreByte (off : Nat) (b : UInt8) : VmM σ Unit := fun m =>
  if off < m.memory.length then .ok () { m with memory := m.memory.set off b }
  else .error .panic m

/-- `Memory.Resize`: grows the store with zeros to `size` bytes. -/
def resize (size : Nat) : VmM σ Unit := fun m =>
  if m.memory.length < size then
    .ok () { m with memory := m.memory ++ List.replicate (size - m.memory.length) 0 }
  else .ok () m

def memLen : VmM σ Nat := fun m => .ok m.memory.length m

/-! ### Gas, state and the JUMPDEST cache -/

/-- `contract.UseGas`: subtracts `amount` if the contract has that much. -/
def useGas (amount : Int) : VmM σ Bool := fun m =>
  if (m.gas : Int) < amount then .ok false m
  else .ok true { m with gas := (m.gas - amount).toNat }

/-- `contract.ReturnGas`. -/
def returnGas (g : Nat) : VmM σ Unit := fun m => .ok () { m with gas := m.gas + g }

def getGas : VmM σ Nat := fun m => .ok m.gas m

def getStateDB : VmM σ σ := fun m => .ok m.state m

def setStateDB (s : σ) : VmM σ Unit := fun m => .ok () { m with state := s }

def getDests : VmM σ Destinations := fun m => .ok m.dests m

def setDests (d : Destinations) : VmM σ Unit := fun m => .ok () { m with dests := d }

/-! ### The primitives, applied -/

section Apply

variable (m : Machine σ)

@[simp] theorem pop_nil (h : m.stack = []) : (pop : VmM σ Nat) m = .error .panic m := by
  simp [pop, h]

@[simp] theorem getDests_apply : (getDests : VmM σ Destinations) m = .ok m.dests m := rfl

@[simp] theorem setDests_apply (d : Destinations) :
    (setDests d : VmM σ Unit) m = .ok () { m with dests := d } := rfl

end Apply

end GoEthereum.Vm
