import Mathlib
import GoEthereum.Core.StateTransition

/-!
Header validation (core/block_validator.go, core/dao.go): ValidateHeader,
the difficulty it expects of a header (CalcDifficulty, by the Homestead or
the Frontier rule) and the DAO rule on the extra-data of the blocks after
the fork; and CalcGasLimit, the miner's choice of the next gas limit. The
constants are those of params/protocol_params.go and params/dao.go.

Every difficulty CalcDifficulty returns is at least MinimumDifficulty
(`MinimumDifficulty_le_CalcDifficulty`). CalcGasLimit moves the gas limit by
less than the validator allows, and never below MinGasLimit, for a parent
whose gas limit is at least MinGasLimit and a target of at least twice that
(`CalcGasLimit_within_bound`); with a lower target it may not.
-/

namespace GoEthereum.Core

/-- common.BigMax -/
def BigMax (x y : Int) : Int := if x < y then y else x

namespace Validator

/-! ### params -/

def MaximumExtraDataSize : Int := 32
def DifficultyBoundDivisor : Int := 2048
def DurationLimit : Int := 13
def MinGasLimit : Int := 5000
def GasLimitBoundDivisor : Int := 1024
def MinimumDifficulty : Int := 131072
def ExpDiffPeriod : Int := 100000
def DAOForkExtraRange : Int := 10

/-- params.DAOForkBlockExtra, "dao-hard-fork". -/
def DAOForkBlockExtra : List UInt8 :=
  [0x64, 0x61, 0x6f, 0x2d, 0x68, 0x61, 0x72, 0x64, 0x2d, 0x66, 0x6f, 0x72, 0x6b]

/-- common.MaxBig, 2 ^ 256 - 1. -/
def MaxBig : Int := 2 ^ 256 - 1

/-- The fields of params.ChainConfig that validation reads; a block number
of none is a fork that is not scheduled. -/
structure ChainConfig where
  HomesteadBlock : Option Int
  DAOForkBlock : Option Int
  DAOForkSupport : Bool
  EIP150Block : Option Int
  EIP150Hash : List UInt8

def ChainConfig.IsHomestead (c : ChainConfig) (num : Int) : Bool :=
  match c.HomesteadBlock with
  | none => false
  | some b => decide (b ≤ num)

structure Header where
  ParentHash : List UInt8
  Coinbase : List UInt8
  Difficulty : Int
  Number : Int
  GasLimit : Int
  GasUsed : Int
  Time : Int
  Extra : List UInt8
  Nonce : UInt64

/-- big.Int Uint64: the low 64 bits of the absolute value. -/
def bigUint64 (x : Int) : Nat := x.natAbs % 2 ^ 64

/-! ### Difficulty -/

def calcDifficultyHomestead (time parentTime : Nat) (parentNumber parentDiff : Int) : Int :=
  let x := max (1 - ((time : Int) - parentTime) / 10) (-99)
  -- the minimum, before the exponential factor
  let x := max (parentDiff + parentDiff / DifficultyBoundDivisor * x) MinimumDifficulty
  let periodCount := (parentNumber + 1) / ExpDiffPeriod
  if 1 < periodCount then x + 2 ^ (periodCount - 2).toNat else x

def calcDifficultyFrontier (time parentTime : Nat) (parentNumber parentDiff : Int) : Int :=
  let adjust := parentDiff / DifficultyBoundDivisor
  let diff := if (time : Int) - parentTime < DurationLimit then parentDiff + adjust else parentDiff - adjust
  let diff := max diff MinimumDifficulty
  let periodCount := (parentNumber + 1) / ExpDiffPeriod
  if 1 < periodCount then BigMax (diff + 2 ^ (periodCount - 2).toNat) MinimumDifficulty else diff

/-- The difficulty of a block created at `time` on a parent of the given
time, number and difficulty. -/
def CalcDifficulty (config : ChainConfig) (time parentTime : Nat) (parentNumber parentDiff : Int) : Int :=
  if config.IsHomestead (parentNumber + 1) then calcDifficultyHomestead time parentTime parentNumber parentDiff
  else calcDifficultyFrontier time parentTime parentNumber parentDiff

/-- CalcGasLimit; params.TargetGasLimit, which the command line sets, is a
parameter. -/
def CalcGasLimit (TargetGasLimit : Int) (parent : Header) : Int :=
  let contrib := parent.GasUsed * 3 / 2 / GasLimitBoundDivisor
  let decay := parent.GasLimit / GasLimitBoundDivisor - 1
  let gl := BigMax (parent.GasLimit - decay + contrib) MinGasLimit
  -- below the target: increase the limit as much as we can
  if gl < TargetGasLimit then BigMin (parent.GasLimit + decay) TargetGasLimit else gl

/-- The change of the gas limit ValidateHeader allows: less than a 1024th of
the parent's, to at least MinGasLimit. -/
def GasLimitWithin (parentLimit limit : Int) : Prop :=
  |parentLimit - limit| < parentLimit / GasLimitBoundDivisor ∧ MinGasLimit ≤ limit

instance (parentLimit limit : Int) : Decidable (GasLimitWithin parentLimit limit) :=
  inferInstanceAs (Decidable (_ ∧ _))

/-- Filled up to its limit, a parent pushes CalcGasLimit up by less than a
1024th of its gas limit once that limit is 5120 or more. -/
theorem contrib_sub_decay_lt {L U : Int} (hL : 5120 ≤ L) (hU : U ≤ L) :
    U * 3 / 2 / GasLimitBoundDivisor - (L / GasLimitBoundDivisor - 1) < L / GasLimitBoundDivisor := by
  unfold GasLimitBoundDivisor
  omega

/-- For a parent whose gas limit is at least MinGasLimit and which used at
most its gas limit, and a target of at least twice MinGasLimit, the gas
limit CalcGasLimit returns is one the validator allows. -/
theorem CalcGasLimit_within_bound {TargetGasLimit : Int} (hT : 2 * MinGasLimit ≤ TargetGasLimit)
    {parent : Header} (hL : MinGasLimit ≤ parent.GasLimit) (hU : 0 ≤ parent.GasUsed)
    (hUL : parent.GasUsed ≤ parent.GasLimit) :
    GasLimitWithin parent.GasLimit (CalcGasLimit TargetGasLimit parent) := by
  unfold GasLimitWithin CalcGasLimit
  dsimp only
  unfold MinGasLimit at hT hL ⊢
  rw [abs_sub_lt_iff]
  by_cases hlow : BigMax (parent.GasLimit - (parent.GasLimit / GasLimitBoundDivisor - 1) +
      parent.GasUsed * 3 / 2 / GasLimitBoundDivisor) 5000 < TargetGasLimit
  · -- below the target: the parent's limit moved up by its decay, at most
    rw [if_pos hlow]
    unfold BigMax BigMin GasLimitBoundDivisor at *
    split_ifs at * <;> omega
  · -- at the target or above, which only a parent of 5120 or more reaches:
    rw [if_neg hlow]
    unfold BigMax at *
    have hL' : 5120 ≤ parent.GasLimit := by
      unfold GasLimitBoundDivisor at hlow
      split_ifs at hlow <;> omega
    have hc := contrib_sub_decay_lt hL' hUL
    unfold GasLimitBoundDivisor at *
    split_ifs <;> omega

/-! ### Validation -/

/-- The errors of ValidateHeader, with the values their messages print. -/
inductive ValidationError where
  /-- "Header extra data too long (%d)" -/
  | extraDataTooLong (length : Nat)
  /-- "block time too big" -/
  | BlockTSTooBigErr
  /-- "block time is in the future" -/
  | BlockFutureErr
  /-- "block time stamp equal to previous" -/
  | BlockEqualTSErr
  /-- "Difficulty check failed for header (remote: %v local: %v)" -/
  | difficultyCheck (remote expected : Int)
  /-- "GasLimit check failed for header (remote: %v local_max: %v)" -/
  | gasLimitCheck (remote localMax : Int)
  /-- "block number invalid" -/
  | BlockNumberErr
  /-- BlockNonceErr, with the header's number, hash and nonce. -/
  | BlockNonceErr (Number : Int) (Hash : List UInt8) (Nonce : UInt64)
  /-- "DAO pro-fork bad block extra-data: 0x%x" -/
  | daoProFork (extra : List UInt8)
  /-- "DAO no-fork bad block extra-data: 0x%x" -/
  | daoNoFork (extra : List UInt8)
  /-- "Homestead gas reprice fork hash mismatch: have 0x%x, want 0x%x" -/
  | eip150HashMismatch (actual wanted : List UInt8)
  deriving DecidableEq, Repr

/-- ValidateDAOHeaderExtraData: in the ten blocks from the DAO fork, a
node for the fork wants its extra-data and a node against it refuses it. -/
def ValidateDAOHeaderExtraData (config : ChainConfig) (header : Header) : Except ValidationError Unit :=
  match config.DAOForkBlock with
  | none => .ok ()
  | some daoBlock =>
    if header.Number < daoBlock ∨ daoBlock + DAOForkExtraRange ≤ header.Number then .ok ()
    else if config.DAOForkSupport then
      if header.Extra ≠ DAOForkBlockExtra then .error (.daoProFork header.Extra) else .ok ()
    else if header.Extra = DAOForkBlockExtra then .error (.daoNoFork header.Extra) else .ok ()

section Validate

variable (config : ChainConfig) (hash : Header → List UInt8) (verify : Header → Bool)

/-- ValidateHeader at the wall clock `now`, in unix seconds; `verify` is
pow.Verify and `hash` is Header.Hash. -/
def ValidateHeader (now : Int) (header parent : Header) (checkPow uncle : Bool) :
    Except ValidationError Unit := do
  if MaximumExtraDataSize < header.Extra.length then throw (.extraDataTooLong header.Extra.length)
  if uncle then
    if MaxBig < header.Time then throw .BlockTSTooBigErr
  else
    if now < header.Time then throw .BlockFutureErr
  if header.Time ≤ parent.Time then throw .BlockEqualTSErr
  let expd := CalcDifficulty config (bigUint64 header.Time) (bigUint64 parent.Time) parent.Number
    parent.Difficulty
  if expd ≠ header.Difficulty then throw (.difficultyCheck header.Difficulty expd)
  let a := |parent.GasLimit - header.GasLimit|
  let b := parent.GasLimit / GasLimitBoundDivisor
  if ¬a < b ∨ header.GasLimit < MinGasLimit then throw (.gasLimitCheck header.GasLimit b)
  if header.Number - parent.Number ≠ 1 then throw .BlockNumberErr
  if checkPow ∧ verify header = false then throw (.BlockNonceErr header.Number (hash header) header.Nonce)
  ValidateDAOHeaderExtraData config header
  -- the pinned hash of the EIP150 fork block
  if !uncle ∧ config.EIP150Block = some header.Number then
    if config.EIP150Hash ≠ List.replicate 32 0 ∧ config.EIP150Hash ≠ hash header then
      throw (.eip150HashMismatch (hash header) config.EIP150Hash)

end Validate

end Validator

end GoEthereum.Core
