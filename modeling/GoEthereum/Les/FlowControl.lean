import Mathlib.Tactic

/-!
The flow control of the light client protocol (les/flowcontrol/control.go).
A server keeps, for each client, a buffer value (`ClientNode`) that requests
drain and that recharges with time up to `BufLimit`; a client keeps an
estimate of the same buffer for each server (`ServerNode`).

The arithmetic is on `uint64`, and what it is meant to compute is the
saturating arithmetic of `rechargeSpec`, `processedSpec` and `replySpec`.
The buffer value stays within `BufLimit` over every run
(`run_bufValue_le`), and a recharge that does not overflow is the
saturating one (`recharge_eq_spec`). Three steps wrap instead
(`flow_control_wraps`): a recharge whose product wraps to a multiple of
`2 ^ 64`, a request that costs more than the buffer, and a reply whose
buffer value is below the cost still in flight.
-/

namespace GoEthereum.Les.FlowControl

def fcTimeConst : UInt64 := 1000000

structure ServerParams where
  BufLimit : UInt64
  MinRecharge : UInt64

/-- The `dt` of recalcBV and recalcBLE: the clock ticks from `lastTime` to
`time`, and 0 when the clock went back. -/
def ticks (lastTime time : Int64) : UInt64 :=
  if time < lastTime then 0 else (time - lastTime).toUInt64

/-- The recharge of a buffer `b` from `lastTime` to `time`, which recalcBV
and recalcBLE both compute. -/
def recharge (params : ServerParams) (b : UInt64) (lastTime time : Int64) : UInt64 :=
  let b := b + params.MinRecharge * ticks lastTime time / fcTimeConst
  if b > params.BufLimit then params.BufLimit else b

/-! ### The server's view of a client -/

structure ClientNode where
  params : ServerParams
  bufValue : UInt64
  lastTime : Int64

def ClientNode.recalcBV (peer : ClientNode) (time : Int64) : ClientNode :=
  { peer with bufValue := recharge peer.params peer.bufValue peer.lastTime time, lastTime := time }

/-- AcceptRequest at the clock reading `time`; `accepted` is what the client
manager's accept returns. -/
def ClientNode.AcceptRequest (peer : ClientNode) (time : Int64) (accepted : Bool) :
    (UInt64 × Bool) × ClientNode :=
  let peer := peer.recalcBV time
  ((peer.bufValue, accepted), peer)

/-- RequestProcessed at the clock reading `time`; `rcValue` and `rcost` are
what the client manager's processed returns. -/
def ClientNode.RequestProcessed (peer : ClientNode) (time : Int64) (cost rcValue rcost : UInt64) :
    (UInt64 × UInt64) × ClientNode :=
  let peer := peer.recalcBV time
  let peer := { peer with bufValue := peer.bufValue - cost }
  let peer := peer.recalcBV time
  let peer :=
    if rcValue < peer.params.BufLimit then
      let bv := peer.params.BufLimit - rcValue
      if bv > peer.bufValue then { peer with bufValue := bv } else peer
    else peer
  ((peer.bufValue, rcost), peer)

/-! ### The client's view of a server -/

structure ServerNode where
  bufEstimate : UInt64
  lastTime : Int64
  params : ServerParams
  sumCost : UInt64
  /-- the map from request id to `sumCost` after sending the request -/
  pending : UInt64 → Option UInt64

def ServerNode.recalcBLE (peer : ServerNode) (time : Int64) : ServerNode :=
  { peer with bufEstimate := recharge peer.params peer.bufEstimate peer.lastTime time,
              lastTime := time }

/-- canSend; the division by `MinRecharge` panics when it is 0 (`none`). -/
def ServerNode.canSend (peer : ServerNode) (maxCost : UInt64) : Option UInt64 :=
  if peer.bufEstimate ≥ maxCost then some 0
  else if peer.params.MinRecharge = 0 then none
  else some ((maxCost - peer.bufEstimate) * fcTimeConst / peer.params.MinRecharge)

/-- The wait loop of SendRequest over the clock readings it takes after each
sleep: the node once its estimate covers `maxCost`, or `none` if it still
waits when the readings run out. The wait is canSend's, whose panic is the
error. -/
def ServerNode.sendLoop (maxCost : UInt64) (peer : ServerNode) :
    List Int64 → Except String (Option ServerNode)
  | [] =>
    if peer.bufEstimate < maxCost then
      match peer.canSend maxCost with
      | none => .error "integer divide by zero"
      | some _ => .ok none
    else .ok (some peer)
  | time :: times =>
    if peer.bufEstimate < maxCost then
      match peer.canSend maxCost with
      | none => .error "integer divide by zero"
      | some _ => sendLoop maxCost (peer.recalcBLE time) times
    else .ok (some peer)

/-- SendRequest at the clock reading `time`, with the readings `times` of
its wait loop. -/
def ServerNode.SendRequest (peer : ServerNode) (reqID maxCost : UInt64) (time : Int64)
    (times : List Int64) : Except String (Option ServerNode) :=
  match sendLoop maxCost (peer.recalcBLE time) times with
  | .ok (some peer) =>
    let sumCost := peer.sumCost + maxCost
    -- reqID >= 0 holds of every uint64
    .ok (some { peer with bufEstimate := peer.bufEstimate - maxCost, sumCost := sumCost,
                          pending := Function.update peer.pending reqID (some sumCost) })
  | r => r

/-- GotReply to request `reqID` with the server's buffer value `bv`, at the
clock reading `time`. -/
def ServerNode.GotReply (peer : ServerNode) (reqID bv : UInt64) (time : Int64) : ServerNode :=
  match peer.pending reqID with
  | none => peer
  | some sc =>
    { peer with pending := Function.update peer.pending reqID none,
                bufEstimate := bv - (peer.sumCost - sc), lastTime := time }

/-! ### The saturating arithmetic the flow control stands for -/

/-- Recharging `b` over `dt` adds `MinRecharge * dt / fcTimeConst`, up to
the limit. -/
def rechargeSpec (params : ServerParams) (b dt : Nat) : Nat :=
  b + min (params.BufLimit.toNat - b) (params.MinRecharge.toNat * dt / 1000000)

/-- A processed request that costs more than the buffer `b` leaves what the
client manager's recharge value leaves of the limit. -/
def processedSpec (params : ServerParams) (b cost rcValue : Nat) : Nat :=
  if cost > b then params.BufLimit.toNat - rcValue else b - cost

/-- A reply with buffer value `bv` sets the estimate to `bv` less what is
still in flight, and never below 0. -/
def replySpec (bv inFlight : Nat) : Nat := bv - inFlight

/-! ### Recharging -/

section Recharge

variable (params : ServerParams) (b : UInt64) (lastTime time : Int64)

theorem ticks_self : ticks time time = 0 := by
  rw [ticks, if_neg Int64.lt_irrefl, Int64.sub_self]
  rfl

theorem recharge_le : recharge params b lastTime time ≤ params.BufLimit := by
  dsimp only [recharge]
  split_ifs with h
  · exact UInt64.le_refl _
  · exact UInt64.not_lt.mp h

/-- At the time of the last recharge nothing is added. -/
theorem recharge_self : recharge params b time time =
    if b > params.BufLimit then params.BufLimit else b := by
  simp [recharge, ticks_self]

/-- Without overflow, in the product or in the sum, a recharge from within
the limit is the saturating one. -/
theorem recharge_eq_spec (hb : b ≤ params.BufLimit)
    (hprod : params.MinRecharge.toNat * (ticks lastTime time).toNat < 2 ^ 64)
    (hsum : b.toNat + params.MinRecharge.toNat * (ticks lastTime time).toNat / 1000000 < 2 ^ 64) :
    (recharge params b lastTime time).toNat =
      rechargeSpec params b.toNat (ticks lastTime time).toNat := by
  have hb' : b.toNat ≤ params.BufLimit.toNat := UInt64.le_iff_toNat_le.mp hb
  have hlim := params.BufLimit.toNat_lt
  -- the product fits, so does its quotient added to a buffer within the limit
  have hadd : (b + params.MinRecharge * ticks lastTime time / fcTimeConst).toNat =
      b.toNat + params.MinRecharge.toNat * (ticks lastTime time).toNat / 1000000 := by
    rw [UInt64.toNat_add, UInt64.toNat_div, UInt64.toNat_mul, Nat.mod_eq_of_lt hprod]
    simp only [fcTimeConst, UInt64.reduceToNat]
    omega
  dsimp only [recharge, rechargeSpec]
  split_ifs with hgt
  · simp only [gt_iff_lt, UInt64.lt_iff_toNat_lt, hadd] at hgt
    omega
  · simp only [gt_iff_lt, UInt64.lt_iff_toNat_lt, hadd] at hgt
    rw [hadd]
    omega

/-- A product `MinRecharge * dt` that wraps to a multiple of `2 ^ 64` adds
nothing. -/
theorem recharge_wraps (hb : b ≤ params.BufLimit)
    (hwrap : 2 ^ 64 ∣ params.MinRecharge.toNat * (ticks lastTime time).toNat) :
    recharge params b lastTime time = b := by
  have hzero : params.MinRecharge * ticks lastTime time / fcTimeConst = 0 := by
    apply UInt64.toNat_inj.mp
    rw [UInt64.toNat_div, UInt64.toNat_mul, Nat.mod_eq_zero_of_dvd hwrap]
    rfl
  dsimp only [recharge]
  rw [hzero, UInt64.add_zero]
  exact if_neg (UInt64.not_lt.mpr hb)

end Recharge

/-- A subtraction below zero wraps round to `2 ^ 64` less the difference. -/
theorem toNat_sub_of_lt {a b : UInt64} (h : a < b) : (a - b).toNat = 2 ^ 64 - (b.toNat - a.toNat) := by
  have h' := UInt64.lt_iff_toNat_lt.mp h
  have hb := b.toNat_lt
  rw [UInt64.toNat_sub, Nat.mod_eq_of_lt (by omega)]
  omega

/-! ### The server's buffer values -/

/-- NewClientNode at the clock reading `time`: a full buffer. -/
def NewClientNode (params : ServerParams) (time : Int64) : ClientNode := ⟨params, params.BufLimit, time⟩

/-- What the server does with one client. -/
inductive ClientEvent where
  | accept (time : Int64) (accepted : Bool)
  | processed (time : Int64) (cost rcValue rcost : UInt64)

def ClientNode.step (peer : ClientNode) : ClientEvent → ClientNode
  | .accept time accepted => (peer.AcceptRequest time accepted).2
  | .processed time cost rcValue rcost => (peer.RequestProcessed time cost rcValue rcost).2

def ClientNode.run (peer : ClientNode) (events : List ClientEvent) : ClientNode :=
  events.foldl ClientNode.step peer

section Client

variable (peer : ClientNode) (time : Int64)

theorem recalcBV_le : (peer.recalcBV time).bufValue ≤ peer.params.BufLimit :=
  recharge_le _ _ _ _

/-- Each step keeps the parameters and leaves the buffer within the limit,
from whatever buffer it starts. -/
theorem step_le (e : ClientEvent) :
    (peer.step e).params = peer.params ∧ (peer.step e).bufValue ≤ peer.params.BufLimit := by
  cases e with
  | accept time accepted => exact ⟨rfl, recalcBV_le peer time⟩
  | processed time cost rcValue rcost =>
    -- after the second recharge the buffer is within the limit, and BufLimit - rcValue is
    refine ⟨by dsimp only [ClientNode.step, ClientNode.RequestProcessed]; split_ifs <;> rfl, ?_⟩
    have hle := recalcBV_le { peer.recalcBV time with bufValue := (peer.recalcBV time).bufValue - cost } time
    dsimp only [ClientNode.step, ClientNode.RequestProcessed]
    split_ifs with hrc hbv
    · exact UInt64.sub_le (UInt64.le_of_lt hrc)
    · exact hle
    · exact hle

/-- Over every run from a new node the buffer value stays within the
limit. -/
theorem run_bufValue_le (params : ServerParams) (events : List ClientEvent) :
    ((NewClientNode params time).run events).bufValue ≤ params.BufLimit := by
  suffices h : ∀ peer : ClientNode, peer.params = params → peer.bufValue ≤ params.BufLimit →
      (peer.run events).bufValue ≤ params.BufLimit from
    h _ rfl (UInt64.le_refl _)
  -- the invariant: the parameters are the node's, and the buffer is within their limit
  induction events with
  | nil => exact fun peer _ hb => hb
  | cons e events ih =>
    intro peer hparams _
    obtain ⟨hstep, hle⟩ := step_le peer e
    exact ih (peer.step e) (hstep.trans hparams) (hparams ▸ hle)

/-- A processed request that costs more than the buffer, by less than
`2 ^ 64 - BufLimit`, wraps the buffer round past the limit, and the second
recharge clamps it back to the limit: the buffer comes out full. -/
theorem RequestProcessed_refills (cost rcValue rcost : UInt64)
    (hcost : (peer.recalcBV time).bufValue < cost)
    (hwrap : cost.toNat - (peer.recalcBV time).bufValue.toNat < 2 ^ 64 - peer.params.BufLimit.toNat) :
    (peer.RequestProcessed time cost rcValue rcost).2.bufValue = peer.params.BufLimit := by
  -- the subtraction wraps to 2 ^ 64 - (cost - b), above the limit
  have hover : peer.params.BufLimit < (peer.recalcBV time).bufValue - cost := by
    rw [UInt64.lt_iff_toNat_lt, toNat_sub_of_lt hcost]
    omega
  have hfull : ({ peer.recalcBV time with bufValue := (peer.recalcBV time).bufValue - cost }.recalcBV
      time).bufValue = peer.params.BufLimit := by
    show recharge peer.params ((peer.recalcBV time).bufValue - cost) time time = _
    rw [recharge_self]
    exact if_pos hover
  dsimp only [ClientNode.RequestProcessed]
  split_ifs with hrc hbv
  · rw [hfull] at hbv
    exact absurd hbv (UInt64.not_lt.mpr (UInt64.sub_le (UInt64.le_of_lt hrc)))
  · exact hfull
  · exact hfull

end Client

/-! ### The client's estimates -/

section Server

variable (maxCost : UInt64)

theorem recalcBLE_le (peer : ServerNode) (time : Int64) :
    (peer.recalcBLE time).bufEstimate ≤ peer.params.BufLimit :=
  recharge_le _ _ _ _

/-- The wait loop ends on a node with the same parameters whose estimate
covers `maxCost` and is within the limit. -/
theorem sendLoop_ok (times : List Int64) :
    ∀ peer peer' : ServerNode, peer.bufEstimate ≤ peer.params.BufLimit →
      peer.sendLoop maxCost times = .ok (some peer') →
      peer'.params = peer.params ∧ maxCost ≤ peer'.bufEstimate ∧
        peer'.bufEstimate ≤ peer'.params.BufLimit := by
  -- on the readings: each wait recharges the node, which keeps its estimate within the limit
  induction times with
  | nil =>
    intro peer peer' hle h
    simp only [ServerNode.sendLoop] at h
    split_ifs at h with hlt
    · split at h <;> cases h
    · cases h
      exact ⟨rfl, UInt64.not_lt.mp hlt, hle⟩
  | cons time times ih =>
    intro peer peer' hle h
    simp only [ServerNode.sendLoop] at h
    split_ifs at h with hlt
    · split at h
      · cases h
      · obtain ⟨hparams, hcover, hlim⟩ := ih _ peer' (recalcBLE_le peer time) h
        exact ⟨hparams, hcover, hlim⟩
    · cases h
      exact ⟨rfl, UInt64.not_lt.mp hlt, hle⟩

/-- A request that is sent leaves the estimate within the limit, whatever
the estimate was before. -/
theorem SendRequest_le (peer peer' : ServerNode) (reqID : UInt64) (time : Int64)
    (times : List Int64) (h : peer.SendRequest reqID maxCost time times = .ok (some peer')) :
    peer'.bufEstimate ≤ peer'.params.BufLimit := by
  unfold ServerNode.SendRequest at h
  split at h
  · rename_i node hloop
    cases h
    obtain ⟨-, hcover, hlim⟩ := sendLoop_ok maxCost times _ node (recalcBLE_le peer time) hloop
    exact UInt64.le_trans (UInt64.sub_le hcover) hlim
  · rename_i hnot
    exact (hnot peer' h).elim

end Server

/-- A reply whose buffer value is below the cost still in flight wraps the
estimate round to `2 ^ 64` less the difference. -/
theorem GotReply_wraps (peer : ServerNode) (reqID bv : UInt64) (time : Int64) {sc : UInt64}
    (hsc : peer.pending reqID = some sc) (hbv : bv < peer.sumCost - sc) :
    (peer.GotReply reqID bv time).bufEstimate.toNat =
      2 ^ 64 - ((peer.sumCost - sc).toNat - bv.toNat) := by
  simp only [ServerNode.GotReply, hsc]
  exact toNat_sub_of_lt hbv

/-! ### Where the arithmetic wraps -/

/-- A recharge whose product wraps to a positive multiple of `2 ^ 64` adds
nothing where the saturating recharge adds; a processed request that costs
more than the buffer refills the buffer where the client manager's recharge
value should be taken off the limit; and a reply below the cost in flight
puts the estimate above the limit, where it should be 0. -/
theorem flow_control_wraps :
    (∀ (params : ServerParams) (b : UInt64) (lastTime time : Int64), b < params.BufLimit →
      0 < params.MinRecharge.toNat * (ticks lastTime time).toNat →
      2 ^ 64 ∣ params.MinRecharge.toNat * (ticks lastTime time).toNat →
      (recharge params b lastTime time).toNat ≠
        rechargeSpec params b.toNat (ticks lastTime time).toNat) ∧
    (∀ (peer : ClientNode) (time : Int64) (cost rcValue rcost : UInt64),
      (peer.recalcBV time).bufValue < cost →
      cost.toNat - (peer.recalcBV time).bufValue.toNat < 2 ^ 64 - peer.params.BufLimit.toNat →
      0 < rcValue → 0 < peer.params.BufLimit →
      (peer.RequestProcessed time cost rcValue rcost).2.bufValue.toNat ≠
        processedSpec peer.params (peer.recalcBV time).bufValue.toNat cost.toNat rcValue.toNat) ∧
    (∀ (peer : ServerNode) (reqID bv : UInt64) (time : Int64) (sc : UInt64),
      peer.pending reqID = some sc → bv < peer.sumCost - sc →
      (peer.sumCost - sc).toNat - bv.toNat < 2 ^ 64 - peer.params.BufLimit.toNat →
      peer.params.BufLimit < (peer.GotReply reqID bv time).bufEstimate ∧
        (peer.GotReply reqID bv time).bufEstimate.toNat ≠
          replySpec bv.toNat (peer.sumCost - sc).toNat) := by
  refine ⟨?recharge, ?processed, ?reply⟩
  case recharge =>
    intro params b lastTime time hb hpos hwrap
    rw [recharge_wraps params b lastTime time (UInt64.le_of_lt hb) hwrap]
    -- the product is at least 2 ^ 64, so the saturating recharge adds at least one
    have hge := Nat.le_of_dvd hpos hwrap
    have hb' := UInt64.lt_iff_toNat_lt.mp hb
    unfold rechargeSpec
    omega
  case processed =>
    intro peer time cost rcValue rcost hcost hwrap hrc hlim
    rw [RequestProcessed_refills peer time cost rcValue rcost hcost hwrap, processedSpec,
      if_pos (UInt64.lt_iff_toNat_lt.mp hcost)]
    have hrc' := UInt64.lt_iff_toNat_lt.mp hrc
    have hlim' := UInt64.lt_iff_toNat_lt.mp hlim
    simp only [UInt64.toNat_zero] at hrc' hlim'
    omega
  case reply =>
    intro peer reqID bv time sc hsc hbv hgap
    have hwrapped := GotReply_wraps peer reqID bv time hsc hbv
    have hbv' := UInt64.lt_iff_toNat_lt.mp hbv
    refine ⟨UInt64.lt_iff_toNat_lt.mpr ?_, ?_⟩
    · rw [hwrapped]
      omega
    · rw [hwrapped, replySpec]
      omega

/-- The three at small inputs: `MinRecharge` `2 ^ 32` over `2 ^ 32` ticks;
a request of cost 50 against a buffer of 10; a reply of 100 with 200 in
flight. -/
theorem flow_control_wraps_small :
    (recharge ⟨1000, 4294967296⟩ 0 0 4294967296).toNat ≠
        rechargeSpec ⟨1000, 4294967296⟩ 0 (ticks 0 4294967296).toNat ∧
      (ClientNode.RequestProcessed ⟨⟨1000, 1⟩, 10, 0⟩ 0 50 1 0).2.bufValue.toNat ≠
        processedSpec ⟨1000, 1⟩ (ClientNode.recalcBV ⟨⟨1000, 1⟩, 10, 0⟩ 0).bufValue.toNat 50 1 ∧
      (1000 : UInt64) < (ServerNode.GotReply ⟨0, 0, ⟨1000, 1⟩, 300, fun _ => some 100⟩ 0 100 0).bufEstimate :=
  ⟨flow_control_wraps.1 _ 0 0 4294967296 (by decide) (by decide) (by decide),
    flow_control_wraps.2.1 _ 0 50 1 0 (by decide) (by decide) (by decide) (by decide),
    (flow_control_wraps.2.2 ⟨0, 0, ⟨1000, 1⟩, 300, fun _ => some 100⟩ 0 100 0 100 rfl (by decide)
      (by decide)).1⟩

end GoEthereum.Les.FlowControl
