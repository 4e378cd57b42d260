import GoEthereum.Core.BlockValidator

/-!
The header a miner starts a block with (miner/worker.go, commitNewWork):
its time is the wall clock, or one second past the parent's when the parent
is not older; its number follows the parent's; its difficulty and gas limit
are CalcDifficulty and CalcGasLimit on the parent; and in the ten blocks
from the DAO fork its extra-data follows the miner's side of the fork.

Such a header passes ValidateHeader against its parent, the proof of work
aside, at a validator whose clock has reached the header's time, for a
parent whose gas limit is at least MinGasLimit and which used at most that,
an extra-data of at most 32 bytes and a target gas limit of at least twice
MinGasLimit: the one check that can fail is the pinned hash of the EIP150
fork block (`ValidateHeader_commitNewWorkHeader`).
-/

namespace GoEthereum.Miner

open GoEthereum.Core.Validator

/-- An int64 of a uint64 bit pattern. -/
def toInt64 (n : Nat) : Int := if n < 2 ^ 63 then n else (n : Int) - 2 ^ 64

/-- The int64 with the low 64 bits of `x`: int64 arithmetic, and big.Int
Int64. -/
def wrapInt64 (x : Int) : Int := toInt64 (x % 2 ^ 64).toNat

/-- uint64(x) of an int64. -/
def int64ToUint64 (x : Int) : Nat := (x % 2 ^ 64).toNat

theorem wrapInt64_of_lt {x : Int} (h0 : 0 ≤ x) (h : x < 2 ^ 63) : wrapInt64 x = x := by
  unfold wrapInt64 toInt64
  rw [Int.emod_eq_of_lt h0 (by omega), if_pos (by omega)]
  omega

theorem int64ToUint64_eq_bigUint64 {x : Int} (h0 : 0 ≤ x) (h : x < 2 ^ 64) :
    int64ToUint64 x = bigUint64 x := by
  unfold int64ToUint64 bigUint64
  rw [Int.emod_eq_of_lt h0 h]
  omega

section Worker

variable (config : ChainConfig) (hash : Header → List UInt8) (TargetGasLimit : Int)

/-- The time of the block commitNewWork starts at the wall clock `now`. -/
def commitTime (now : Int) (parent : Header) : Int :=
  if now ≤ parent.Time then wrapInt64 (wrapInt64 parent.Time + 1) else now

/-- The header commitNewWork starts a block on `parent` with, at the wall
clock `now` (unix seconds), for the miner's coinbase and extra-data. -/
def commitNewWorkHeader (coinbase extra : List UInt8) (now : Int) (parent : Header) : Header :=
  let tstamp := commitTime now parent
  let header : Header :=
    { ParentHash := hash parent
      Number := parent.Number + 1
      Difficulty := CalcDifficulty config (int64ToUint64 tstamp) (bigUint64 parent.Time) parent.Number
        parent.Difficulty
      GasLimit := CalcGasLimit TargetGasLimit parent
      GasUsed := 0
      Coinbase := coinbase
      Extra := extra
      Time := tstamp
      Nonce := 0 }
  -- the extra-data of the blocks in the DAO fork's range
  match config.DAOForkBlock with
  | none => header
  | some daoBlock =>
    if daoBlock ≤ header.Number ∧ header.Number < daoBlock + DAOForkExtraRange then
      if config.DAOForkSupport then { header with Extra := DAOForkBlockExtra }
      else if header.Extra = DAOForkBlockExtra then { header with Extra := [] }
      else header
    else header

/-- The clock commitNewWork reads, in the range of an int64 and with a
parent of a time that can be passed by one second. -/
structure Clocks (now : Int) (parent : Header) : Prop where
  parent_nonneg : 0 ≤ parent.Time
  parent_lt : parent.Time + 1 < 2 ^ 63
  now_nonneg : 0 ≤ now
  now_lt : now < 2 ^ 63

theorem commitTime_eq {now : Int} {parent : Header} (h : Clocks now parent) :
    commitTime now parent = max now (parent.Time + 1) := by
  have := h.parent_nonneg
  have := h.parent_lt
  unfold commitTime
  split
  · rw [wrapInt64_of_lt h.parent_nonneg (by omega), wrapInt64_of_lt (by omega) h.parent_lt]
    omega
  · omega

variable (coinbase extra : List UInt8) (now : Int) (parent : Header)

/-- The DAO override changes the extra-data only. -/
theorem commitNewWorkHeader_eq :
    ∃ e, commitNewWorkHeader config hash TargetGasLimit coinbase extra now parent =
      { ParentHash := hash parent
        Number := parent.Number + 1
        Difficulty := CalcDifficulty config (int64ToUint64 (commitTime now parent)) (bigUint64 parent.Time)
          parent.Number parent.Difficulty
        GasLimit := CalcGasLimit TargetGasLimit parent
        GasUsed := 0
        Coinbase := coinbase
        Extra := e
        Time := commitTime now parent
        Nonce := 0 } ∧
      (e = extra ∨ e = DAOForkBlockExtra ∨ e = []) := by
  unfold commitNewWorkHeader
  dsimp only
  split
  · exact ⟨extra, rfl, .inl rfl⟩
  · split
    · split
      · exact ⟨_, rfl, .inr (.inl rfl)⟩
      · split
        · exact ⟨_, rfl, .inr (.inr rfl)⟩
        · exact ⟨extra, rfl, .inl rfl⟩
    · exact ⟨extra, rfl, .inl rfl⟩

/-- The header commitNewWork builds meets the DAO rule on extra-data, for
or against the fork. -/
theorem ValidateDAOHeaderExtraData_commitNewWorkHeader :
    ValidateDAOHeaderExtraData config (commitNewWorkHeader config hash TargetGasLimit coinbase extra now parent) =
      .ok () := by
  unfold commitNewWorkHeader
  dsimp only
  cases hdao : config.DAOForkBlock with
  | none => rw [ValidateDAOHeaderExtraData, hdao]
  | some daoBlock =>
    dsimp only
    by_cases hrange : daoBlock ≤ parent.Number + 1 ∧ parent.Number + 1 < daoBlock + DAOForkExtraRange
    · -- in the fork's range the override makes the extra-data what the rule wants
      rw [if_pos hrange]
      have hin : ¬(parent.Number + 1 < daoBlock ∨ daoBlock + DAOForkExtraRange ≤ parent.Number + 1) := by
        omega
      by_cases hsupport : config.DAOForkSupport = true
      · rw [if_pos hsupport, ValidateDAOHeaderExtraData, hdao]
        simp only [if_neg hin, hsupport, if_true, ne_eq, not_true_eq_false, if_false]
      · rw [if_neg hsupport]
        have hsupport' : config.DAOForkSupport = false := by simpa using hsupport
        by_cases hextra : extra = DAOForkBlockExtra
        · rw [if_pos hextra, ValidateDAOHeaderExtraData, hdao]
          simp only [if_neg hin, hsupport', Bool.false_eq_true, if_false]
          rw [if_neg (by decide)]
        · rw [if_neg hextra, ValidateDAOHeaderExtraData, hdao]
          simp only [if_neg hin, hsupport', Bool.false_eq_true, if_false]
          rw [if_neg hextra]
    · rw [if_neg hrange, ValidateDAOHeaderExtraData, hdao]
      simp only
      rw [if_pos (by omega)]

/-- The header commitNewWork starts a block with passes ValidateHeader
against its parent, the proof of work aside: for a parent whose gas limit is
at least MinGasLimit and which used at most that, an extra-data Miner.SetExtra
admits, a target gas limit of at least twice MinGasLimit and a validator
whose clock has reached the header's time, the only check that can fail is
the pinned hash of the EIP150 fork block. -/
theorem ValidateHeader_commitNewWorkHeader (verify : Header → Bool) (now' : Int)
    (hT : 2 * MinGasLimit ≤ TargetGasLimit) (hL : MinGasLimit ≤ parent.GasLimit)
    (hU : 0 ≤ parent.GasUsed) (hUL : parent.GasUsed ≤ parent.GasLimit) (hextra : extra.length ≤ 32)
    (hclocks : Clocks now parent) (hnow' : max now (parent.Time + 1) ≤ now') :
    let header := commitNewWorkHeader config hash TargetGasLimit coinbase extra now parent
    ValidateHeader config hash verify now' header parent false false =
      if config.EIP150Block = some header.Number ∧ config.EIP150Hash ≠ List.replicate 32 0 ∧
          config.EIP150Hash ≠ hash header then
        .error (.eip150HashMismatch (hash header) config.EIP150Hash)
      else .ok () := by
  intro header
  obtain ⟨e, heq, he⟩ := commitNewWorkHeader_eq config hash TargetGasLimit coinbase extra now parent
  have htime := commitTime_eq hclocks
  have := hclocks.now_lt
  have := hclocks.parent_nonneg
  have := hclocks.parent_lt
  have hN : header.Number = parent.Number + 1 := by simp only [header, heq]
  have hTime : header.Time = max now (parent.Time + 1) := by simp only [header, heq, htime]
  have hD : header.Difficulty =
      CalcDifficulty config (bigUint64 header.Time) (bigUint64 parent.Time) parent.Number parent.Difficulty := by
    simp only [header, heq]
    rw [int64ToUint64_eq_bigUint64 (by rw [htime]; omega) (by rw [htime]; omega)]
  have hG : GasLimitWithin parent.GasLimit header.GasLimit := by
    simp only [header, heq]
    exact CalcGasLimit_within_bound hT hL hU hUL
  have hE : header.Extra.length ≤ 32 := by
    simp only [header, heq]
    rcases he with rfl | rfl | rfl
    · exact hextra
    · decide
    · decide
  have hdao : ValidateDAOHeaderExtraData config header = .ok () :=
    ValidateDAOHeaderExtraData_commitNewWorkHeader config hash TargetGasLimit coinbase extra now parent
  -- each check passes in turn, up to the EIP150 one
  rw [ValidateHeader]
  simp only [MaximumExtraDataSize, show ¬(32 : Int) < header.Extra.length by omega, if_false,
    Bool.false_eq_true, show ¬now' < header.Time by omega, show ¬header.Time ≤ parent.Time by omega,
    ← hD, ne_eq, not_true_eq_false, show ¬(¬|parent.GasLimit - header.GasLimit| < parent.GasLimit /
      GasLimitBoundDivisor ∨ header.GasLimit < MinGasLimit) by unfold GasLimitWithin at hG; omega,
    hN, show parent.Number + 1 - parent.Number = 1 by omega, false_and, hdao, Bool.not_false, true_and,
    bind, Except.bind]
  -- the pinned hash of the EIP150 fork block
  by_cases hpin : config.EIP150Block = some (parent.Number + 1)
  · by_cases hmis : ¬config.EIP150Hash = List.replicate 32 0 ∧ ¬config.EIP150Hash = hash header
    · rw [if_pos hpin, if_pos hmis, if_pos ⟨hpin, hmis⟩]
      rfl
    · rw [if_pos hpin, if_neg hmis, if_neg (fun h => hmis h.2)]
      rfl
  · rw [if_neg hpin, if_neg (fun h => hpin h.1)]
    rfl

/-- The first block on a parent at time zero, mined and validated within
the same second, with no fork scheduled. -/
theorem ValidateHeader_commitNewWorkHeader_first :
    let config : ChainConfig := ⟨none, none, false, none, []⟩
    let parent : Header := ⟨[], [], 131072, 0, 5000, 0, 0, [], 0⟩
    ValidateHeader config (fun _ => []) (fun _ => true) 1
      (commitNewWorkHeader config (fun _ => []) 4712388 [] [] 1 parent) parent false false = .ok () := by
  intro config parent
  rw [ValidateHeader_commitNewWorkHeader config (fun _ => []) 4712388 [] [] 1 parent (fun _ => true) 1
    (by decide) (by decide) (by decide) (by decide) (by decide) ⟨by decide, by decide, by decide, by decide⟩
    (by decide)]
  rfl

end Worker

end GoEthereum.Miner
