import GoEthereum.Vm.Interpreter

/-!
The stack check of the table against what its functions read.

`Run` calls an operation's `validateStack` before its gas and execution
functions, and the stack's `pop` and `Back` index the slice with no bounds
check of their own. `StackEffect p q` says what a function takes from the
stack and what it leaves; every execution, gas and memory-size function has
one, built from those of the primitives, and every entry of the table but
BALANCE declares at least the pops its functions read. BALANCE is
`makeStackFunc(0, 1)` with `opBalance`, which pops the address: the code
`0x31` with an empty stack and gas for BALANCE passes the check, pays, and
panics in `opBalance`.
-/

namespace GoEthereum.Vm

open GoEthereum.StateM

variable {σ : Type}

/-! ### What each function takes from the stack

`StackEffect p q x`: `x` takes the top `p` items, leaves `q` in their place,
and reads nothing below them. The effect of every execution, gas and
memory-size function follows from those of the primitives by the closure
lemmas; the table check then compares them with each entry's
`makeStackFunc`. -/

/-- The machine `m` with the items `extra` below its stack. -/
def Machine.below (m : Machine σ) (extra : List Nat) : Machine σ :=
  { m with stack := m.stack ++ extra }

/-- An outcome whose machine has `extra` below its stack. -/
def belowResult {α : Type} (extra : List Nat) :
    EStateM.Result Exit (Machine σ) α → EStateM.Result Exit (Machine σ) α
  | .ok a m => .ok a (m.below extra)
  | .error e m => .error e (m.below extra)

/-- From a stack of at least `p` items, `x` does the same with any items
below it and leaves them there, and a success leaves `q` items for the `p`. -/
structure StackEffect {α : Type} (p q : Nat) (x : VmM σ α) : Prop where
  frame : ∀ m extra, p ≤ m.stack.length → x (m.below extra) = belowResult extra (x m)
  length : ∀ m a m', p ≤ m.stack.length → x m = .ok a m' →
    m'.stack.length + p = m.stack.length + q

namespace StackEffect

variable {α β : Type} {p q p₁ q₁ p₂ q₂ : Nat}

theorem of_eq {x : VmM σ α} (h : StackEffect p q x) (hp : p = p₁) (hq : q = q₁) :
    StackEffect p₁ q₁ x := hp ▸ hq ▸ h

theorem frame_of_le {x : VmM σ α} (h : StackEffect p q x) {m : Machine σ} (extra : List Nat)
    (hm : p₁ ≤ m.stack.length) (hp : p ≤ p₁) : x (m.below extra) = belowResult extra (x m) :=
  h.frame m extra (by omega)

theorem bind {x : VmM σ α} {f : α → VmM σ β} (hx : StackEffect p₁ q₁ x)
    (hf : ∀ a, StackEffect p₂ q₂ (f a)) :
    StackEffect (p₁ + (p₂ - q₁)) (q₂ + (q₁ - p₂)) (x >>= f) where
  frame m extra hm := by
    rw [bind_apply, bind_apply, hx.frame m extra (by omega)]
    cases hxm : x m with
    | ok a m₁ =>
        -- the first part leaves at least `p₂` items for the second
        have hlen := hx.length m a m₁ (by omega) hxm
        exact (hf a).frame m₁ extra (by omega)
    | error e m₁ => rfl
  length m b m' hm h := by
    obtain ⟨a, m₁, hxm, hfm⟩ := bind_eq_ok.mp h
    have h₁ := hx.length m a m₁ (by omega) hxm
    have h₂ := (hf a).length m₁ b m' (by omega) hfm
    omega

/-- Taking `k` more items and giving them back. -/
theorem mono {x : VmM σ α} (h : StackEffect p q x) (k : Nat) : StackEffect (p + k) (q + k) x where
  frame m extra hm := h.frame m extra (by omega)
  length m a m' hm hx := by
    have := h.length m a m' (by omega) hx
    omega

/-- Two branches that change the height alike: the one that reads less is
widened to the other. -/
theorem ite {c : Prop} [Decidable c] {x y : VmM σ α} (hx : StackEffect p₁ q₁ x)
    (hy : StackEffect p₂ q₂ y) (hnet : p₁ + q₂ = p₂ + q₁) :
    StackEffect (max p₁ p₂) (max q₁ q₂) (if c then x else y) := by
  split
  · exact (hx.mono (max p₁ p₂ - p₁)).of_eq (by omega) (by omega)
  · exact (hy.mono (max p₁ p₂ - p₂)).of_eq (by omega) (by omega)

end StackEffect

theorem stackEffect_pure {α : Type} (a : α) : StackEffect 0 0 (pure a : VmM σ α) :=
  ⟨fun _ _ _ => rfl, fun _ _ _ _ h => by cases h; rfl⟩

theorem stackEffect_throw {α : Type} (e : Exit) : StackEffect 0 0 (throw e : VmM σ α) :=
  ⟨fun _ _ _ => rfl, fun _ _ _ _ h => by cases h⟩

/-- A primitive that neither reads nor writes the stack. -/
theorem stackEffect_of_stack {α : Type} {x : VmM σ α}
    (hframe : ∀ m extra, x (m.below extra) = belowResult extra (x m))
    (hlen : ∀ m a m', x m = .ok a m' → m'.stack = m.stack) : StackEffect 0 0 x :=
  ⟨fun m extra _ => hframe m extra, fun m a m' _ h => by rw [hlen m a m' h]⟩

theorem stackEffect_pop : StackEffect 1 0 (pop : VmM σ Nat) where
  frame m extra hm := by
    obtain ⟨x, rest, hs⟩ := List.exists_cons_of_length_pos (Nat.lt_of_succ_le hm)
    simp [pop, Machine.below, belowResult, hs]
  length m a m' _ h := by
    unfold pop at h
    split at h
    · next x rest hs => cases h; simp [hs]
    · cases h

theorem stackEffect_push (d : Nat) : StackEffect 0 1 (push d : VmM σ Unit) where
  frame _ _ _ := rfl
  length m a m' _ h := by cases h; simp

theorem stackEffect_back (n : Nat) : StackEffect (n + 1) (n + 1) (back n : VmM σ Nat) where
  frame m extra hm := by
    have hn : n < m.stack.length := by omega
    simp [back, Machine.below, belowResult, List.getElem?_append_left hn, List.getElem?_eq_getElem hn]
  length m a m' _ h := by
    unfold back at h
    split at h <;> cases h
    rfl

theorem stackEffect_setTop (d : Nat) : StackEffect 1 1 (setTop d : VmM σ Unit) where
  frame m extra hm := by
    obtain ⟨x, rest, hs⟩ := List.exists_cons_of_length_pos (Nat.lt_of_succ_le hm)
    simp [setTop, Machine.below, belowResult, hs]
  length m a m' _ h := by
    unfold setTop at h
    split at h
    · next x rest hs => cases h; simp [hs]
    · cases h

theorem stackEffect_swap (n : Nat) : StackEffect n n (swap n : VmM σ Unit) where
  frame m extra hm := by
    have hext : n ≤ m.stack.length + extra.length := by omega
    by_cases hn : 0 < n
    · have h₀ : 0 < m.stack.length := by omega
      have h₁ : n - 1 < m.stack.length := by omega
      simp [swap, Machine.below, belowResult, hn, hm, hext, List.getElem_append_left h₀,
        List.getElem_append_left h₁, List.set_append_left, h₀, h₁]
    · simp [swap, Machine.below, belowResult, hn]
  length m a m' _ h := by
    unfold swap at h
    split at h
    · cases h; simp
    · cases h

theorem stackEffect_dup (n : Nat) : StackEffect n (n + 1) (dup n : VmM σ Unit) where
  frame m extra hm := by
    have hext : n ≤ m.stack.length + extra.length := by omega
    by_cases hn : 0 < n
    · have h₁ : n - 1 < m.stack.length := by omega
      simp [dup, Machine.below, belowResult, hn, hm, hext, List.getElem_append_left h₁]
    · simp [dup, Machine.below, belowResult, hn]
  length m a m' _ h := by
    unfold dup at h
    split at h
    · cases h; simp; omega
    · cases h

section NoStack

/-! The memory, gas, state and call primitives leave the stack alone. -/

variable (m : Machine σ) (extra : List Nat)

@[simp] theorem Machine.below_memory : (m.below extra).memory = m.memory := rfl

@[simp] theorem Machine.below_gas : (m.below extra).gas = m.gas := rfl

theorem stackEffect_memSet (offset size : Nat) (value : List UInt8) :
    StackEffect 0 0 (memSet offset size value : VmM σ Unit) :=
  stackEffect_of_stack
    (fun m extra => by simp only [memSet, Machine.below_memory, apply_ite (belowResult extra)]; rfl)
    (fun m a m' h => by unfold memSet at h; split_ifs at h <;> cases h <;> rfl)

theorem stackEffect_memGet (offset size : Nat) :
    StackEffect 0 0 (memGet offset size : VmM σ (List UInt8)) :=
  stackEffect_of_stack
    (fun m extra => by simp only [memGet, Machine.below_memory, apply_ite (belowResult extra)]; rfl)
    (fun m a m' h => by unfold memGet at h; split_ifs at h <;> cases h <;> rfl)

theorem stackEffect_memStoreByte (off : Nat) (b : UInt8) :
    StackEffect 0 0 (memStoreByte off b : VmM σ Unit) :=
  stackEffect_of_stack
    (fun m extra => by simp only [memStoreByte, Machine.below_memory, apply_ite (belowResult extra)]; rfl)
    (fun m a m' h => by unfold memStoreByte at h; split_ifs at h; cases h; rfl)

theorem stackEffect_useGas (amount : Int) : StackEffect 0 0 (useGas amount : VmM σ Bool) :=
  stackEffect_of_stack
    (fun m extra => by simp only [useGas, Machine.below_gas, apply_ite (belowResult extra)]; rfl)
    (fun m a m' h => by unfold useGas at h; split_ifs at h <;> cases h <;> rfl)

theorem stackEffect_memLen : StackEffect 0 0 (memLen : VmM σ Nat) :=
  stackEffect_of_stack (fun _ _ => rfl) (fun _ _ _ h => by cases h; rfl)

theorem stackEffect_getGas : StackEffect 0 0 (getGas : VmM σ Nat) :=
  stackEffect_of_stack (fun _ _ => rfl) (fun _ _ _ h => by cases h; rfl)

theorem stackEffect_getStateDB : StackEffect 0 0 (getStateDB : VmM σ σ) :=
  stackEffect_of_stack (fun _ _ => rfl) (fun _ _ _ h => by cases h; rfl)

theorem stackEffect_setStateDB (s : σ) : StackEffect 0 0 (setStateDB s : VmM σ Unit) :=
  stackEffect_of_stack (fun _ _ => rfl) (fun _ _ _ h => by cases h; rfl)

theorem stackEffect_getDests : StackEffect 0 0 (getDests : VmM σ Destinations) :=
  stackEffect_of_stack (fun _ _ => rfl) (fun _ _ _ h => by cases h; rfl)

theorem stackEffect_setDests (d : Destinations) : StackEffect 0 0 (setDests d : VmM σ Unit) :=
  stackEffect_of_stack (fun _ _ => rfl) (fun _ _ _ h => by cases h; rfl)

theorem stackEffect_callWith (f : σ → Destinations → Except Exit (CallResult σ)) :
    StackEffect 0 0 (callWith f) :=
  stackEffect_of_stack
    (fun m extra => by
      simp only [callWith, Machine.below, belowResult]
      cases f m.state m.dests <;> rfl)
    (fun m a m' h => by
      unfold callWith at h
      split at h <;> cases h
      rfl)

theorem stackEffect_createWith (f : σ → Destinations → Except Exit (CreateResult σ)) :
    StackEffect 0 0 (createWith f) :=
  stackEffect_of_stack
    (fun m extra => by
      simp only [createWith, Machine.below, belowResult]
      cases f m.state m.dests <;> rfl)
    (fun m a m' h => by
      unfold createWith at h
      split at h <;> cases h
      rfl)

end NoStack

theorem stackEffect_popN : ∀ n, StackEffect n 0 (popN n : VmM σ (List Nat))
  | 0 => stackEffect_pure _
  | n + 1 =>
      (stackEffect_pop.bind fun _ =>
        (stackEffect_popN n).bind fun _ => stackEffect_pure _).of_eq (by omega) (by omega)

theorem stackEffect_checkJumpdest (contract : Contract) (pos : Nat) :
    StackEffect 0 0 (checkJumpdest contract pos : VmM σ Unit) := by
  unfold checkJumpdest
  apply StackEffect.of_eq
  repeat' with_reducible first
    | apply StackEffect.ite | apply StackEffect.bind | intro _ | split
    | exact stackEffect_getDests | exact stackEffect_setDests _
    | exact stackEffect_pure _ | exact stackEffect_throw _
  all_goals omega

/-! ### The effects of the table's functions -/

/-- The items each execution function pops and the items it pushes. -/
def ExecutionFunc.stackEffect : ExecutionFunc → Nat × Nat
  | .opAdd | .opSub | .opMul | .opDiv | .opSdiv | .opMod | .opSmod | .opExp | .opSignExtend
  | .opLt | .opGt | .opSlt | .opSgt | .opEq | .opAnd | .opOr | .opXor | .opByte | .opSha3 => (2, 1)
  | .opNot | .opIszero | .opBalance | .opCalldataLoad | .opExtCodeSize | .opBlockhash
  | .opMload | .opSload => (1, 1)
  | .opAddmod | .opMulmod => (3, 1)
  | .opAddress | .opOrigin | .opCaller | .opCallValue | .opCalldataSize | .opCodeSize
  | .opGasprice | .opCoinbase | .opTimestamp | .opNumber | .opDifficulty | .opGasLimit
  | .opPc | .opMsize | .opGas => (0, 1)
  | .opCalldataCopy | .opCodeCopy => (3, 0)
  | .opExtCodeCopy => (4, 0)
  | .opPop | .opJump | .opSuicide => (1, 0)
  | .opMstore | .opMstore8 | .opSstore | .opJumpi | .opReturn => (2, 0)
  | .opJumpdest | .opStop => (0, 0)
  | .opCreate => (3, 1)
  | .opCall | .opCallCode => (7, 1)
  | .opDelegateCall => (6, 1)
  | .makeLog size => (size + 2, 0)
  | .makePush _ => (0, 1)
  | .makeDup size => (size, size + 1)
  | .makeSwap size => (size + 1, size + 1)

/-- How deep each gas function reads with `Back`. -/
def GasFunc.stackReads : GasFunc → Nat
  | .constGasFunc _ | .gasMLoad | .gasMStore8 | .gasMStore | .gasCreate | .gasBalance
  | .gasExtCodeSize | .gasSLoad | .gasReturn | .gasPush | .gasSwap | .gasDup => 0
  | .gasSuicide | .gasDelegateCall => 1
  | .gasSStore | .gasSha3 | .gasExp | .makeGasLog _ => 2
  | .gasCalldataCopy | .gasCodeCopy | .gasCall | .gasCallCode => 3
  | .gasExtCodeCopy => 4

/-- How deep each memory-size function reads. -/
def MemorySizeFunc.stackReads : MemorySizeFunc → Nat
  | .memoryMLoad | .memoryMStore8 | .memoryMStore => 1
  | .memorySha3 | .memoryReturn | .memoryLog => 2
  | .memoryCalldataCopy | .memoryCodeCopy | .memoryCreate => 3
  | .memoryExtCodeCopy => 4
  | .memoryDelegateCall => 6
  | .memoryCall => 7

theorem stackEffect_memorySize (f : MemorySizeFunc) :
    StackEffect f.stackReads f.stackReads (memorySize f : VmM σ Nat) := by
  cases f <;> simp only [memorySize] <;> apply StackEffect.of_eq <;>
  repeat' with_reducible first
    | apply StackEffect.bind | intro _ | exact stackEffect_back _ | exact stackEffect_pure _
  all_goals rfl

theorem stackEffect_memoryGasCost (size : Option Nat) :
    StackEffect 0 0 (memoryGasCost size : VmM σ Nat) := by
  unfold memoryGasCost
  split
  · exact stackEffect_throw _
  · exact stackEffect_memLen.bind fun _ =>
      (StackEffect.ite (stackEffect_pure _) (stackEffect_pure _) rfl).of_eq rfl rfl

theorem stackEffect_gasCost (gt : GasTable) (evm : EVM σ) (contract : Contract)
    (memorySize : Option Nat) (g : GasFunc) :
    StackEffect g.stackReads g.stackReads (gasCost gt evm contract memorySize g) := by
  cases g <;>
    simp only [gasCost, gasCalldataCopy, gasSStore, makeGasLog, gasSha3, gasCodeCopy,
      gasExtCodeCopy, gasMLoad, gasMStore8, gasMStore, gasCreate, gasBalance, gasExtCodeSize,
      gasSLoad, gasExp, gasCall, gasCallCode, gasReturn, gasSuicide, gasDelegateCall, gasPush,
      gasSwap, gasDup, grantCallGas] <;>
  apply StackEffect.of_eq <;>
  repeat' with_reducible first
    | apply StackEffect.ite | apply StackEffect.bind | intro _
    | exact stackEffect_back _ | exact stackEffect_pure _ | exact stackEffect_throw _
    | exact stackEffect_getGas | exact stackEffect_setTop _ | exact stackEffect_getStateDB
    | exact stackEffect_setStateDB _ | exact stackEffect_memoryGasCost _
    | split
    -- a branch after a `match` whose other branch fixed the effect
    | (apply StackEffect.of_eq; apply StackEffect.bind)
  all_goals rfl

theorem stackEffect_execute (evm : EVM σ) (contract : Contract) (pc : Nat) (f : ExecutionFunc) :
    StackEffect f.stackEffect.1 f.stackEffect.2 (execute evm contract pc f) := by
  cases f <;>
    simp only [execute, withPc, opAdd, opSub, opMul, opDiv, opSdiv, opMod, opSmod, opExp,
      opSignExtend, opNot, opLt, opGt, opSlt, opSgt, opEq, opIszero, opAnd, opOr, opXor, opByte,
      opAddmod, opMulmod, opSha3, opAddress, opBalance, opOrigin, opCaller, opCallValue,
      opCalldataLoad, opCalldataSize, opCalldataCopy, opExtCodeSize, opCodeSize, opCodeCopy,
      opExtCodeCopy, opGasprice, opBlockhash, opCoinbase, opTimestamp, opNumber, opDifficulty,
      opGasLimit, opPop, opMload, opMstore, opMstore8, opSload, opSstore, opJump, opJumpi,
      opJumpdest, opPc, opMsize, opGas, opCreate, opCall, opCallCode, callLike, opDelegateCall,
      opReturn, opStop, opSuicide, makeLog, makePush, makeDup, makeSwap] <;>
  apply StackEffect.of_eq <;>
  repeat' with_reducible first
    | apply StackEffect.ite | exact stackEffect_checkJumpdest _ _ | apply StackEffect.bind
    | intro _
    | exact stackEffect_pop | exact stackEffect_push _ | exact stackEffect_pure _
    | exact stackEffect_throw _ | exact stackEffect_memSet _ _ _ | exact stackEffect_memGet _ _
    | exact stackEffect_memStoreByte _ _ | exact stackEffect_memLen | exact stackEffect_getGas
    | exact stackEffect_useGas _ | exact stackEffect_getStateDB | exact stackEffect_setStateDB _
    | exact stackEffect_popN _ | exact stackEffect_swap _ | exact stackEffect_dup _
    | exact stackEffect_callWith _ | exact stackEffect_createWith _
  all_goals first | rfl | (simp only [ExecutionFunc.stackEffect]; omega)

/-! ### The table against its stack checks -/

/-- The deepest item an entry's functions read: the pops of its execution
function, and what its gas and memory-size functions read with `Back`. -/
def Operation.stackReads (operation : Operation) : Nat :=
  max operation.execute.stackEffect.1
    (max operation.gasCost.stackReads ((operation.memorySize.map MemorySizeFunc.stackReads).getD 0))

/-- Every entry but BALANCE declares at least the pops its functions read. -/
theorem newJumpTable_stackReads : ∀ n < 256, n ≠ 0x31 →
    (newJumpTable n).all (fun op => decide (op.stackReads ≤ op.validateStack.pop)) = true := by
  decide +kernel

theorem stackReads_le_of_newJumpTable {op : OpCode} {operation : Operation}
    (h : newJumpTable op.toNat = some operation) (hb : op ≠ OpCode.BALANCE) :
    operation.stackReads ≤ operation.validateStack.pop := by
  have hn : op.toNat ≠ 0x31 := fun hn => hb (UInt8.toNat_inj.mp hn)
  have hall := newJumpTable_stackReads op.toNat op.toNat_lt hn
  rw [h] at hall
  simpa using hall

/-- BALANCE is the one entry whose functions read below the stack its check
asks for. For every other entry, a stack that passes its `validateStack`
holds all that its memory-size, gas and execution functions read: with any
items below it they do exactly what they do without them, and leave the
items below. -/
theorem reads_within_validateStack {op : OpCode} {operation : Operation}
    (hop : newJumpTable op.toNat = some operation) (hb : op ≠ OpCode.BALANCE)
    (m : Machine σ) (hm : operation.validateStack.pop ≤ m.stack.length) (extra : List Nat)
    (evm : EVM σ) (gt : GasTable) (contract : Contract) (pc : Nat) (size : Option Nat) :
    (∀ f, operation.memorySize = some f →
      (memorySize f : VmM σ Nat) (m.below extra) = belowResult extra (memorySize f m)) ∧
    gasCost gt evm contract size operation.gasCost (m.below extra) =
      belowResult extra (gasCost gt evm contract size operation.gasCost m) ∧
    execute evm contract pc operation.execute (m.below extra) =
      belowResult extra (execute evm contract pc operation.execute m) := by
  have hreads := stackReads_le_of_newJumpTable hop hb
  unfold Operation.stackReads at hreads
  refine ⟨fun f hf => ?_, ?_, ?_⟩
  · rw [hf] at hreads
    exact (stackEffect_memorySize f).frame_of_le extra hm (by simp at hreads; omega)
  · exact (stackEffect_gasCost gt evm contract size _).frame_of_le extra hm (by omega)
  · exact (stackEffect_execute evm contract pc _).frame_of_le extra hm (by omega)

/-- CALL checks for seven items, and its functions read no deeper. -/
theorem reads_within_validateStack_call :
    let operation : Operation :=
      { execute := .opCall, gasCost := .gasCall, validateStack := makeStackFunc 7 1,
        memorySize := some .memoryCall }
    let m : Machine Unit :=
      { stack := [100, 7, 0, 0, 4, 0, 32], memory := [], gas := 1000, state := (),
        dests := fun _ => none }
    let contract : Contract :=
      { callerAddress := 0, address := 1, value := 0, code := [0xf1], codeHash := 0,
        codeAddr := none, input := [] }
    newJumpTable (0xf1 : OpCode).toNat = some operation ∧ (0xf1 : OpCode) ≠ OpCode.BALANCE ∧
      operation.validateStack.pop ≤ m.stack.length ∧
      ((∀ f, operation.memorySize = some f →
        (memorySize f : VmM Unit Nat) (m.below [9]) = belowResult [9] (memorySize f m)) ∧
      gasCost noRecursionEVM.gasTable noRecursionEVM contract (some 64) operation.gasCost
          (m.below [9]) =
        belowResult [9] (gasCost noRecursionEVM.gasTable noRecursionEVM contract (some 64)
          operation.gasCost m) ∧
      execute noRecursionEVM contract 0 operation.execute (m.below [9]) =
        belowResult [9] (execute noRecursionEVM contract 0 operation.execute m)) :=
  ⟨rfl, by decide, by decide,
    @reads_within_validateStack Unit 0xf1 _ rfl (by decide) _ (by decide) [9] noRecursionEVM _ _ 0
      (some 64)⟩

/-! ### BALANCE -/

theorem newJumpTable_balance : newJumpTable OpCode.BALANCE.toNat = some
    { execute := .opBalance, gasCost := .gasBalance, validateStack := makeStackFunc 0 1 } := rfl

/-- BALANCE declares no pops, so the check lets an empty stack through. -/
theorem validateStack_balance (m : Machine σ) (hstack : m.stack = []) :
    (validateStack (makeStackFunc 0 1) : VmM σ Unit) m = .ok () m := by
  simp [validateStack, makeStackFunc, hstack, StackLimit]

/-- A BALANCE fetched with an empty stack and enough gas is paid for, and then
panics in `opBalance`'s pop. -/
theorem step_balance_panics (evm : EVM σ) (gt : GasTable) (contract : Contract) (pc : Nat)
    (m : Machine σ) (hop : contract.GetOp pc = OpCode.BALANCE) (hstack : m.stack = [])
    (hgas : gt.balance ≤ m.gas) :
    ∃ m', step evm gt contract pc m = .error .panic m' := by
  have hpaid : ¬ (m.gas : Int) < gt.balance := by omega
  have hprep : prepare evm gt contract
      { execute := .opBalance, gasCost := .gasBalance, validateStack := makeStackFunc 0 1 } m =
        .ok () { m with gas := ((m.gas : Int) - gt.balance).toNat } := by
    simp only [prepare, bind_apply, validateStack_balance m hstack, wordMemorySize, gasCost,
      gasBalance, pure_apply, useGas, hpaid]
    rfl
  -- the check and the payment leave the stack empty, and `opBalance` pops first
  have hpop : (pop : VmM σ Nat) { m with gas := ((m.gas : Int) - gt.balance).toNat } =
      .error .panic { m with gas := ((m.gas : Int) - gt.balance).toNat } := pop_nil _ hstack
  refine ⟨{ m with gas := ((m.gas : Int) - gt.balance).toNat }, ?_⟩
  simp only [step, hop, newJumpTable_balance]
  rw [bind_of_ok hprep]
  simp only [execute, withPc, opBalance, bind_apply, hpop]

/-- The one-byte contract BALANCE crashes the interpreter. For every state,
input and fuel, a contract whose code is the byte `0x31`, with no
precompiled contract at its address and at least the gas the table charges
for BALANCE, makes `Run` panic: a `Stack.pop` on an empty stack, which no
error value reports. -/
theorem run_balance_panics (fuel : Nat) (evm : EVM σ) (contract : Contract)
    (input : List UInt8) (m : Machine σ) (hcode : contract.code = [OpCode.BALANCE])
    (hpre : contract.codeAddr.bind evm.precompiled = none)
    (hgas : evm.gasTable.balance ≤ m.gas) :
    ∃ m', run (fuel + 1) evm contract input m = .error .panic m' := by
  have hop : ({ contract with input := input } : Contract).GetOp 0 = OpCode.BALANCE := by
    simp [Contract.GetOp, hcode]
  obtain ⟨m', hstep⟩ := step_balance_panics evm evm.gasTable { contract with input := input } 0
    { m with stack := [], memory := [] } hop rfl hgas
  refine ⟨m', ?_⟩
  have hne : ({ contract with input := input } : Contract).code ≠ [] := by simp [hcode]
  simp only [run, hpre, if_neg hne, runLoop]
  rw [bind_of_error hstep]

/-- A Homestead block's BALANCE costs 20 gas: the contract `0x31` with 20 gas
panics. -/
theorem run_balance_panics_homestead :
    noRecursionEVM.gasTable.balance ≤ 20 ∧
      ∃ m', run 1 noRecursionEVM
        { callerAddress := 0, address := 0, value := 0, code := [OpCode.BALANCE], codeHash := 0,
          codeAddr := none, input := [] } []
        { stack := [], memory := [], gas := 20, state := (), dests := fun _ => none } =
        .error .panic m' :=
  ⟨by decide, run_balance_panics 0 noRecursionEVM _ [] _ rfl rfl (by decide)⟩

end GoEthereum.Vm
