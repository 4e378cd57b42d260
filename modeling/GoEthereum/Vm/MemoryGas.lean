import GoEthereum.Vm.Frame

/-!
Memory expansion gas over a run of `Interpreter.Run`. Before an operation
executes, `Run` rounds the memory it needs up to whole words, charges
`memoryGasCost` for it, and grows the memory with `Resize`; the execution
functions never change the memory's length. `memoryGasCost` charges the
difference of the Yellow Paper's total fee `Cmem` between the new and the
old number of words, so the fees of a run add up to `Cmem` of the words the
memory holds, while every size the run asks for is below `2 ^ 64`. A larger
size is charged in full, but `Resize` is handed the size modulo `2 ^ 64`:
the memory grows to less than was paid for. `Expands` is the run so far,
with the fees it was charged and the largest memory size it asked for.
-/

namespace GoEthereum.Vm

open GoEthereum.StateM

variable {σ : Type}

/-! ### The fee -/

/-- `C_mem(w)`: the total fee for `w` words of memory, the sum that
`memoryGasCost` computes for the old and for the new size. -/
def Cmem (w : Nat) : Nat := w * MemoryGas + w ^ 2 / QuadCoeffDiv

theorem Cmem_mono {v w : Nat} (h : v ≤ w) : Cmem v ≤ Cmem w := by
  unfold Cmem
  have hsq : v ^ 2 ≤ w ^ 2 := Nat.pow_le_pow_left h 2
  have hdiv : v ^ 2 / QuadCoeffDiv ≤ w ^ 2 / QuadCoeffDiv := Nat.div_le_div_right hsq
  have hlin : v * MemoryGas ≤ w * MemoryGas := Nat.mul_le_mul_right _ h
  omega

theorem toWordSize_of_dvd {n : Nat} (h : 32 ∣ n) : toWordSize n = n / 32 := by
  unfold toWordSize
  omega

/-- The fee `memoryGasCost` charges for growing `len` bytes of memory to
`size` bytes. -/
def expansionFee (size len : Nat) : Nat :=
  if size > 0 ∧ size > len then Cmem (toWordSize size) - Cmem (toWordSize len) else 0

/-- A size the memory already covers costs nothing. -/
theorem expansionFee_of_le {size len : Nat} (h : size ≤ len) : expansionFee size len = 0 := by
  unfold expansionFee
  rw [if_neg]
  omega

/-- Growing a word-aligned memory to a word-aligned size raises `Cmem` of
its words by exactly the fee. -/
theorem Cmem_max {size len : Nat} (hsize : 32 ∣ size) (hlen : 32 ∣ len) :
    Cmem (max len size / 32) = Cmem (len / 32) + expansionFee size len := by
  unfold expansionFee
  rw [toWordSize_of_dvd hsize, toWordSize_of_dvd hlen]
  split
  case isTrue hgt =>
    have hmono : Cmem (len / 32) ≤ Cmem (size / 32) := Cmem_mono (Nat.div_le_div_right hgt.2.le)
    rw [max_eq_right hgt.2.le]
    omega
  case isFalse hle =>
    have hmax : max len size = len := max_eq_left (by omega)
    rw [hmax, Nat.add_zero]

/-! ### The memory's length through a step -/

section Step

variable {L : Nat}

/-- `x` leaves the memory's length as it is, whether it returns or raises. -/
theorem keeps_length {α : Type} {x : VmM σ α}
    (h : ∀ m, (after (x m)).memory.length = m.memory.length) :
    KeepsAfter (fun m : Machine σ => m.memory.length = L) x :=
  .of_after fun m hm => (h m).trans hm

/-- Every primitive but `Resize` keeps the memory's length: the writes of
`Memory.Set` and `memory.store[off] = b` stay inside the store. -/
theorem primitivesKeep_length (evm : EVM σ) (contract : Contract) :
    PrimitivesKeep (fun m : Machine σ => m.memory.length = L) evm contract where
  back n := keeps_length fun m => by
    unfold back
    split <;> rfl
  setTop d := keeps_length fun m => by
    unfold setTop
    split <;> rfl
  memLen := keeps_length fun _ => rfl
  getGas := keeps_length fun _ => rfl
  getStateDB := keeps_length fun _ => rfl
  setStateDB s := keeps_length fun _ => rfl
  pop := keeps_length fun m => by
    unfold pop
    split <;> rfl
  push d := keeps_length fun _ => rfl
  swap n := keeps_length fun m => by
    unfold swap
    split
    · simp
    · rfl
  dup n := keeps_length fun m => by
    unfold dup
    split <;> rfl
  memSet offset size value := keeps_length fun m => by
    unfold memSet
    split_ifs
    · rfl
    · rfl
    · rfl
    · exact Splice.length_copyAt _ _ _
  memGet offset size := keeps_length fun m => by
    unfold memGet
    split_ifs <;> rfl
  memStoreByte off b := keeps_length fun m => by
    unfold memStoreByte
    split_ifs
    · exact List.length_set
    · rfl
  useGas amount := keeps_length fun m => by
    unfold useGas
    split_ifs <;> rfl
  call c a i g v := keeps_length fun m => by
    unfold callWith
    split <;> rfl
  callCode c a i g v := keeps_length fun m => by
    unfold callWith
    split <;> rfl
  delegateCall c a i g := keeps_length fun m => by
    unfold callWith
    split <;> rfl
  create c i g v := keeps_length fun m => by
    unfold createWith
    split <;> rfl
  checkJumpdest pos := keeps_length fun m => by
    simp only [checkJumpdest, bind_apply, getDests_apply, setDests_apply]
    split <;> rfl

theorem validateStack_eq_ok {v : StackValidationFunc} {m m' : Machine σ} {u : Unit}
    (h : (validateStack v : VmM σ Unit) m = .ok u m') : m' = m := by
  unfold validateStack at h
  split_ifs at h
  cases h
  rfl

theorem length_resize (size : Nat) {m m' : Machine σ} {u : Unit}
    (h : (resize size : VmM σ Unit) m = .ok u m') :
    m'.memory.length = max m.memory.length size := by
  unfold resize at h
  split_ifs at h with hlt
  · cases h
    simp only [List.length_append, List.length_replicate]
    omega
  · cases h
    omega

variable (evm : EVM σ) (gt : GasTable) (contract : Contract)

/-- The memory size, rounded up to whole words, that the operation at `pc`
asks for on machine `m`; `none` when it needs no memory, is not in the
table or cannot read its operands. -/
def stepMemorySize (pc : Nat) (m : Machine σ) : Option Nat :=
  match newJumpTable (contract.GetOp pc).toNat with
  | none => none
  | some operation =>
      match (wordMemorySize operation : VmM σ (Option Nat)) m with
      | .ok size _ => size
      | .error _ _ => none

/-- The gas `memoryGasCost` charges the operation at `pc` on `m` for that size. -/
def stepExpansionFee (pc : Nat) (m : Machine σ) : Nat :=
  match stepMemorySize contract pc m with
  | none => 0
  | some size => expansionFee size m.memory.length

theorem dvd_of_wordMemorySize {operation : Operation} {m m' : Machine σ} {size : Nat}
    (h : (wordMemorySize operation : VmM σ (Option Nat)) m = .ok (some size) m') : 32 ∣ size := by
  unfold wordMemorySize at h
  cases hf : operation.memorySize with
  | none =>
    rw [hf] at h
    cases h
  | some f =>
    rw [hf] at h
    obtain ⟨n, m₁, -, h⟩ := bind_eq_ok.mp h
    cases h
    exact Dvd.intro_left _ rfl

theorem dvd_of_stepMemorySize {pc : Nat} {m : Machine σ} {size : Nat}
    (h : stepMemorySize contract pc m = some size) : 32 ∣ size := by
  unfold stepMemorySize at h
  split at h
  · cases h
  · split at h
    · subst h
      exact dvd_of_wordMemorySize ‹_›
    · cases h

theorem keeps_wordMemorySize {P : Machine σ → Prop}
    (hback : ∀ n, KeepsAfter P (back n : VmM σ Nat)) (operation : Operation) :
    KeepsAfter P (wordMemorySize operation : VmM σ (Option Nat)) := by
  unfold wordMemorySize
  split
  · exact keepsAfter_pure _
  · exact (keeps_memorySize hback _).bind fun _ => keepsAfter_pure _

/-- `prepare` grows the memory to the size it asks for, modulo `2 ^ 64`. -/
theorem length_prepare {operation : Operation} {m m₁ : Machine σ} {u : Unit}
    (h : prepare evm gt contract operation m = .ok u m₁) :
    ∃ ms m', (wordMemorySize operation : VmM σ (Option Nat)) m = .ok ms m' ∧
      m₁.memory.length = max m.memory.length ((ms.map (· % 2 ^ 64)).getD 0) := by
  have hkeep := primitivesKeep_length (L := m.memory.length) evm contract
  obtain ⟨_, m₂, hv, h₂⟩ := bind_eq_ok.mp h
  obtain rfl := validateStack_eq_ok hv
  obtain ⟨ms, m₃, hw, h₃⟩ := bind_eq_ok.mp h₂
  obtain ⟨cost, m₄, hg, h₄⟩ := bind_eq_ok.mp h₃
  obtain ⟨paid, m₅, hu, h₅⟩ := bind_eq_ok.mp h₄
  -- up to the resize, every step keeps the length
  have hl₃ : m₃.memory.length = m₂.memory.length :=
    (keeps_wordMemorySize hkeep.back operation).keeps _ _ _ rfl hw
  have hl₄ : m₄.memory.length = m₂.memory.length :=
    (hkeep.toGasPrimitivesKeep.keeps_gasCost evm gt contract _ _).keeps _ _ _ hl₃ hg
  have hl₅ : m₅.memory.length = m₂.memory.length := (hkeep.useGas cost).keeps _ _ _ hl₄ hu
  refine ⟨ms, m₃, hw, ?_⟩
  -- an unpaid cost throws before the resize
  split at h₅
  · rw [bind_of_error (throw_apply _ _)] at h₅
    cases h₅
  · cases ms with
    | none =>
      cases h₅
      rw [hl₅]
      simp
    | some size =>
      rw [length_resize _ h₅, hl₅]
      rfl

/-- A step grows the memory to the size its operation asks for, modulo
`2 ^ 64`; the execution itself keeps the length. -/
theorem length_step {pc : Nat} {m m₁ : Machine σ} {r : Next}
    (h : step evm gt contract pc m = .ok r m₁) :
    m₁.memory.length =
      max m.memory.length (((stepMemorySize contract pc m).map (· % 2 ^ 64)).getD 0) := by
  simp only [step] at h
  unfold stepMemorySize
  cases hop : newJumpTable (contract.GetOp pc).toNat with
  | none =>
    rw [hop] at h
    cases h
  | some operation =>
    rw [hop] at h
    obtain ⟨_, m₂, hprep, h₂⟩ := bind_eq_ok.mp h
    obtain ⟨res, m₃, hexec, h₃⟩ := bind_eq_ok.mp h₂
    obtain ⟨ms, m', hw, hlen⟩ := length_prepare evm gt contract hprep
    have hl₃ : m₃.memory.length = m₂.memory.length :=
      ((primitivesKeep_length evm contract).keeps_execute pc _).keeps _ _ _ rfl hexec
    have hm₁ : m₁ = m₃ := by
      cases h₃
      rfl
    dsimp only
    simp only [hw, hm₁, hl₃, hlen]

theorem le_length_step {pc : Nat} {m m₁ : Machine σ} {r : Next}
    (h : step evm gt contract pc m = .ok r m₁) : m.memory.length ≤ m₁.memory.length := by
  rw [length_step evm gt contract h]
  exact le_max_left _ _

/-- Sizes are whole words, and so are their residues modulo `2 ^ 64`. -/
theorem dvd_length_step {pc : Nat} {m m₁ : Machine σ} {r : Next}
    (h : step evm gt contract pc m = .ok r m₁) (hlen : 32 ∣ m.memory.length) :
    32 ∣ m₁.memory.length := by
  rw [length_step evm gt contract h]
  cases hs : stepMemorySize contract pc m with
  | none => simpa using hlen
  | some size =>
    have hsize : 32 ∣ size % 2 ^ 64 :=
      (Nat.dvd_mod_iff (Dvd.intro_left (2 ^ 59) rfl)).mpr (dvd_of_stepMemorySize contract hs)
    rcases max_choice m.memory.length (size % 2 ^ 64) with hmax | hmax
    · rw [Option.map_some, Option.getD_some, hmax]
      exact hlen
    · rw [Option.map_some, Option.getD_some, hmax]
      exact hsize

/-- A step whose size is below `2 ^ 64` raises `Cmem` of the memory's words
by exactly the fee it was charged. -/
theorem Cmem_step {pc : Nat} {m m₁ : Machine σ} {r : Next}
    (h : step evm gt contract pc m = .ok r m₁) (hlen : 32 ∣ m.memory.length)
    (hfits : (stepMemorySize contract pc m).getD 0 < 2 ^ 64) :
    Cmem (m₁.memory.length / 32) = Cmem (m.memory.length / 32) + stepExpansionFee contract pc m := by
  rw [length_step evm gt contract h, stepExpansionFee]
  cases hs : stepMemorySize contract pc m with
  | none => simp
  | some size =>
    rw [hs, Option.getD_some] at hfits
    simp only [Option.map_some, Option.getD_some, Nat.mod_eq_of_lt hfits]
    exact Cmem_max (dvd_of_stepMemorySize contract hs) hlen

/-- An operation whose size the memory already covers is charged nothing. -/
theorem stepExpansionFee_of_le {pc : Nat} {m : Machine σ}
    (h : (stepMemorySize contract pc m).getD 0 ≤ m.memory.length) :
    stepExpansionFee contract pc m = 0 := by
  unfold stepExpansionFee
  split
  · rfl
  · rename_i size hs
    rw [hs, Option.getD_some] at h
    exact expansionFee_of_le h

end Step

/-! ### Over a run -/

section Run

variable (evm : EVM σ) (gt : GasTable) (contract : Contract)

/-- `Expands evm gt contract pc₀ m₀ pc m t top`: the loop of `Run`, started
at `pc₀` on `m₀`, fetches at `pc` on `m` after steps that were charged `t`
gas of memory expansion in all and asked for at most `top` bytes. -/
inductive Expands (pc₀ : Nat) (m₀ : Machine σ) : Nat → Machine σ → Nat → Nat → Prop
  | start : Expands pc₀ m₀ pc₀ m₀ 0 0
  | next {pc m pc₁ m₁ t top} :
      Expands pc₀ m₀ pc m t top →
      step evm gt contract pc m = .ok (.continue pc₁) m₁ →
      Expands pc₀ m₀ pc₁ m₁ (t + stepExpansionFee contract pc m)
        (max top ((stepMemorySize contract pc m).getD 0))

variable {evm gt contract} {pc₀ pc : Nat} {m₀ m : Machine σ} {t top : Nat}

/-- Along any run the memory is whole words and never shrinks. -/
theorem Expands.length (h : Expands evm gt contract pc₀ m₀ pc m t top)
    (h₀ : 32 ∣ m₀.memory.length) :
    32 ∣ m.memory.length ∧ m₀.memory.length ≤ m.memory.length := by
  induction h with
  | start => exact ⟨h₀, le_rfl⟩
  | next _ hstep ih =>
    obtain ⟨hdvd, hle⟩ := ih
    exact ⟨dvd_length_step evm gt contract hstep hdvd,
      hle.trans (le_length_step evm gt contract hstep)⟩

/-- While the run asks for less than `2 ^ 64` bytes, the fees it was charged
add up to the rise of `Cmem` of the memory's words. -/
theorem Expands.Cmem_eq (h : Expands evm gt contract pc₀ m₀ pc m t top)
    (h₀ : 32 ∣ m₀.memory.length) (htop : top < 2 ^ 64) :
    Cmem (m.memory.length / 32) = Cmem (m₀.memory.length / 32) + t := by
  induction h with
  | start => rfl
  | next hrun hstep ih =>
    have hfits : (stepMemorySize contract _ _).getD 0 < 2 ^ 64 :=
      lt_of_le_of_lt (le_max_right _ _) htop
    have hlen := (hrun.length h₀).1
    rw [Cmem_step evm gt contract hstep hlen hfits, ih (lt_of_le_of_lt (le_max_left _ _) htop),
      Nat.add_assoc]

/-- Memory expansion gas telescopes over every run of `Run` from an empty
memory whose sizes stay below `2 ^ 64`: the memory is whole words, the fees
charged so far are `Cmem` of its words, an operation the memory already
covers is charged nothing, and the next step, halting or not, grows the
memory and keeps the sum. -/
theorem memory_gas_telescopes (evm : EVM σ) (gt : GasTable) (contract : Contract)
    (pc₀ pc : Nat) (m₀ m : Machine σ) (t top : Nat) (hm₀ : m₀.memory = [])
    (h : Expands evm gt contract pc₀ m₀ pc m t top) (htop : top < 2 ^ 64) :
    32 ∣ m.memory.length ∧ t = Cmem (m.memory.length / 32) ∧
      ((stepMemorySize contract pc m).getD 0 ≤ m.memory.length →
        stepExpansionFee contract pc m = 0) ∧
      ∀ r m₁, step evm gt contract pc m = .ok r m₁ →
        m.memory.length ≤ m₁.memory.length ∧ 32 ∣ m₁.memory.length ∧
        ((stepMemorySize contract pc m).getD 0 < 2 ^ 64 →
          t + stepExpansionFee contract pc m = Cmem (m₁.memory.length / 32)) := by
  have h₀ : 32 ∣ m₀.memory.length := by simp [hm₀]
  have hCmem₀ : Cmem (m₀.memory.length / 32) = 0 := by simp [hm₀, Cmem]
  obtain ⟨hdvd, -⟩ := h.length h₀
  have hsum : Cmem (m.memory.length / 32) = t := by
    rw [h.Cmem_eq h₀ htop, hCmem₀, Nat.zero_add]
  refine ⟨hdvd, hsum.symm, stepExpansionFee_of_le contract, ?_⟩
  intro r m₁ hstep
  refine ⟨le_length_step evm gt contract hstep, dvd_length_step evm gt contract hstep hdvd, ?_⟩
  intro hfits
  rw [Cmem_step evm gt contract hstep hdvd hfits, hsum]

/-- PUSH1 1, PUSH1 0x40, MSTORE8, STOP: one byte stored at 64. -/
def mstore8Contract : Contract :=
  { callerAddress := 0, address := 0, value := 0, code := [0x60, 0x01, 0x60, 0x40, 0x53, 0x00],
    codeHash := 0, codeAddr := none, input := [] }

/-- A fresh machine of `Run` with `g` gas. -/
def runMachine (g : Nat) : Machine Unit :=
  { stack := [], memory := [], gas := g, state := (), dests := fun _ => none }

/-- MSTORE8 at 64 grows the memory to three words and is charged `Cmem 3`. -/
theorem memory_gas_telescopes_mstore8 :
    ∃ m t top, (runMachine 100).memory = [] ∧
      Expands noRecursionEVM noRecursionEVM.gasTable mstore8Contract 0 (runMachine 100) 5 m t top ∧
      top < 2 ^ 64 ∧ m.memory.length = 96 ∧ t = Cmem (m.memory.length / 32) := by
  have hrun : Expands noRecursionEVM noRecursionEVM.gasTable mstore8Contract 0 (runMachine 100) 5
      _ _ _ := .next (.next (.next .start rfl) rfl) rfl
  have htop : max (max (max 0 0) 0) 96 < 2 ^ 64 := by decide
  refine ⟨_, _, _, rfl, hrun, htop, rfl, ?_⟩
  exact (memory_gas_telescopes _ _ _ _ _ _ _ _ _ rfl hrun htop).2.1

/-- PUSH1 32, PUSH9 2^64, SHA3, STOP: hashes 32 bytes at offset `2 ^ 64`. -/
def sha3WrapContract : Contract :=
  { callerAddress := 0, address := 0, value := 0,
    code := [0x60, 0x20, 0x68, 0x01, 0, 0, 0, 0, 0, 0, 0, 0, 0x20, 0x00],
    codeHash := 0, codeAddr := none, input := [] }

/-- With `2 ^ 120` gas, SHA3 over `[2 ^ 64, 2 ^ 64 + 32)` pays for
`2 ^ 59 + 1` words, but `Resize` gets the size modulo `2 ^ 64`, 32 bytes:
at the next fetch the memory is one word and the fees exceed `Cmem 1`. -/
theorem memory_gas_wraps :
    ∃ m t top, Expands noRecursionEVM noRecursionEVM.gasTable sha3WrapContract 0
        (runMachine (2 ^ 120)) 13 m t top ∧
      top = 2 ^ 64 + 32 ∧ m.memory.length = 32 ∧ t = Cmem (2 ^ 59 + 1) ∧
      t ≠ Cmem (m.memory.length / 32) := by
  refine ⟨_, _, _, .next (.next (.next .start rfl) rfl) rfl, ?_, ?_, ?_, ?_⟩
  · decide
  · rfl
  · decide
  · decide

end Run

end GoEthereum.Vm
