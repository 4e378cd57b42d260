import GoEthereum.Contracts.Chequebook

/-!
The swap of swarm (swarm/services/swap/swap/swap.go): the balance of
service units between two peers, settled by chequebook cheques. `Add`
moves the balance and, past the remote peer's payment threshold, `send`
pays the debt with a cheque of the outbox; `Receive` takes the remote
peer's cheque into the inbox and credits the units.

`Receive` lets the inbox verify and store the cheque before it compares the
amount with the units at the local price, so a mismatched amount is refused
without the store being undone (`Receive_stores_refused`). Over any run of
receipts the inbox's baseline is the first one plus what the credited units
paid plus the increments of the cheques stored and refused
(`receiveAll_baseline`); a cheque `send` issues clears the balance
(`send_pays`).
-/

namespace GoEthereum.Swarm

open GoEthereum.Contracts

structure Profile where
  /-- the accepted max price for a chunk; `none` for nil -/
  BuyAt : Option Int
  SellAt : Int
  PayAt : Nat
  DropAt : Nat

structure Swap (Address PubKey Sig : Type) where
  balance : Int
  /-- the Profile of the local Params -/
  localProfile : Profile
  remote : Profile
  /-- the outbox: a chequebook and the beneficiary of its cheques -/
  Out : Chequebook Address
  beneficiary : Address
  In : Inbox Address PubKey Sig
  Buys : Bool
  Sells : Bool
  /-- whether the protocol was asked to drop the peer -/
  dropped : Bool
  /-- the payments the protocol was asked to send: units and cheque -/
  paid : List (Int × Cheque Address Sig)

section Swap

variable {Address PubKey Sig : Type} [DecidableEq Address] [DecidableEq PubKey]
  (C : Crypto Address PubKey Sig) (B : Backend Address)

/-- send: pay the debt, if there is one and we buy, with one cheque. -/
def Swap.send (self : Swap Address PubKey Sig) : Swap Address PubKey Sig :=
  if self.localProfile.BuyAt.isSome ∧ self.balance < 0 then
    let amount := -self.balance * self.remote.SellAt
    match self.Out.Issue C B self.beneficiary amount with
    | (.error _, out) => { self with Out := out }
    | (.ok promise, out) =>
      { self with Out := out, paid := self.paid ++ [(-self.balance, promise)], balance := 0 }
  else self

def Swap.Add (self : Swap Address PubKey Sig) (n : Int) :
    Except String Unit × Swap Address PubKey Sig :=
  let self := { self with balance := self.balance + n }
  if self.Sells = false ∧ self.balance > 0 then
    (.error "remote peer cannot have debt", { self with dropped := true })
  else if self.Buys = false ∧ self.balance < 0 then (.error "we cannot have debt", self)
  else if self.balance ≥ self.localProfile.DropAt then
    (.error "remote peer has too much debt", { self with dropped := true })
  else if self.balance ≤ -(self.remote.PayAt : Int) then (.ok (), self.send C B)
  else (.ok (), self)

def Swap.Receive (self : Swap Address PubKey Sig) (units : Int) (promise : Cheque Address Sig) :
    Except String Unit × Swap Address PubKey Sig :=
  if units ≤ 0 then (.error "invalid units", self)
  else
    let price := units * self.localProfile.SellAt
    match self.In.Receive C B promise with
    | (.error err, inbox) => (.error ("invalid promise: " ++ err), { self with In := inbox })
    | (.ok amount, inbox) =>
      -- the inbox has stored the cheque by now
      if price ≠ amount then (.error "invalid amount", { self with In := inbox })
      else
        -- the error of Add is not returned
        (.ok (), ({ self with In := inbox }.Add C B (-units)).2)

/-! ### Paying -/

omit [DecidableEq PubKey] in
/-- send moves the outbox, the payments and the balance, and nothing else. -/
theorem send_frame (self : Swap Address PubKey Sig) :
    ∃ out paid balance, self.send C B = { self with Out := out, paid := paid, balance := balance } := by
  unfold Swap.send
  split_ifs
  · dsimp only
    split
    · exact ⟨_, _, _, rfl⟩
    · exact ⟨_, _, _, rfl⟩
  · exact ⟨self.Out, self.paid, self.balance, rfl⟩

omit [DecidableEq PubKey] in
/-- Add moves the balance, and what send moves, and may drop the peer. -/
theorem Add_frame (self : Swap Address PubKey Sig) (n : Int) :
    ∃ out paid balance dropped,
      (self.Add C B n).2 = { self with Out := out, paid := paid, balance := balance, dropped := dropped } := by
  unfold Swap.Add
  dsimp only
  split_ifs
  · exact ⟨_, _, _, _, rfl⟩
  · exact ⟨self.Out, self.paid, _, self.dropped, rfl⟩
  · exact ⟨_, _, _, _, rfl⟩
  · obtain ⟨out, paid, balance, h⟩ := send_frame C B { self with balance := self.balance + n }
    exact ⟨out, paid, balance, self.dropped, h⟩
  · exact ⟨self.Out, self.paid, _, self.dropped, rfl⟩

omit [DecidableEq PubKey] in
@[simp] theorem Add_In (self : Swap Address PubKey Sig) (n : Int) : (self.Add C B n).2.In = self.In := by
  obtain ⟨out, paid, balance, dropped, h⟩ := Add_frame C B self n
  rw [h]

omit [DecidableEq PubKey] in
@[simp] theorem Add_localProfile (self : Swap Address PubKey Sig) (n : Int) :
    (self.Add C B n).2.localProfile = self.localProfile := by
  obtain ⟨out, paid, balance, dropped, h⟩ := Add_frame C B self n
  rw [h]

omit [DecidableEq PubKey] in
/-- A cheque that send issues is sent with the units of the debt, carries the
beneficiary's tally grown by the debt at the remote price, and clears the
balance. -/
theorem send_pays (self : Swap Address PubKey Sig) {units : Int} {promise : Cheque Address Sig}
    (h : (self.send C B).paid = self.paid ++ [(units, promise)]) :
    units = -self.balance ∧
      promise.Amount = self.Out.sent self.beneficiary + -self.balance * self.remote.SellAt ∧
      (self.send C B).balance = 0 := by
  unfold Swap.send at h ⊢
  split_ifs at h ⊢ with hdebt
  · dsimp only at h ⊢
    split at h
    · simp at h
    · rename_i ch out hissue
      simp only [List.append_cancel_left_eq, List.cons.injEq, Prod.mk.injEq, and_true] at h
      obtain ⟨rfl, rfl⟩ := h
      obtain ⟨-, -, -, -, hamount, -⟩ := Issue_ok C B self.Out hissue
      exact ⟨rfl, hamount, rfl⟩
  · simp at h

/-! ### Receiving -/

/-- A receipt whose cheque the inbox accepts for an amount other than the
units at the local price is refused, and yet the inbox keeps the cheque:
its baseline has moved on by the amount. -/
theorem Receive_stores_refused (self : Swap Address PubKey Sig) (units : Int)
    (promise : Cheque Address Sig) {amount : Int} {inbox : Inbox Address PubKey Sig}
    (hunits : 0 < units) (hin : self.In.Receive C B promise = (.ok amount, inbox))
    (hprice : units * self.localProfile.SellAt ≠ amount) :
    self.Receive C B units promise = (.error "invalid amount", { self with In := inbox }) ∧
      inbox.cheque = some promise ∧ inbox.cheque ≠ self.In.cheque ∧
      inbox.baseline B = (self.In.baseline B).map (· + amount) := by
  obtain ⟨hpos, hcheque, hbeneficiary, hbaseline⟩ := Receive_ok C B hin
  refine ⟨?_, hcheque, ?_, hbaseline⟩
  · rw [Swap.Receive, if_neg (by omega)]
    simp only [hin]
    rw [if_pos hprice]
  · -- the same cheque would leave the baseline where it was
    intro hsame
    rw [hcheque] at hsame
    rw [Inbox.baseline, Inbox.baseline, hcheque, ← hsame] at hbaseline
    simp only [Option.map_some, Option.some.injEq] at hbaseline
    omega

/-- A signature scheme whose signature is the signer's key, and a chain whose
tallies are all 0. -/
def keyAsSig : Crypto Nat Nat Nat := ⟨fun _ _ amount => some amount.toNat, fun _ _ _ sig => some sig⟩

def zeroTally : Backend Nat := ⟨fun _ => true, fun _ => some 0⟩

/-- A swap at a local price of 1 whose inbox, for beneficiary 2 of contract
1 and signer 7, has no cheque yet. -/
def freshSwap : Swap Nat Nat Nat where
  balance := 0
  localProfile := ⟨some 1, 1, 100, 100⟩
  remote := ⟨some 1, 1, 100, 100⟩
  Out := ⟨0, 0, fun _ => 0, none, 0⟩
  beneficiary := 0
  In := ⟨1, 2, 7, none, 0, none⟩
  Buys := true
  Sells := true
  dropped := false
  paid := []

/-- A cheque of 5 for 3 units is refused, and kept. -/
theorem Receive_stores_refused_overpaid :
    freshSwap.Receive keyAsSig zeroTally 3 ⟨1, 2, 5, 7⟩ =
        (.error "invalid amount", { freshSwap with In := { freshSwap.In with cheque := some ⟨1, 2, 5, 7⟩ } }) ∧
      ({ freshSwap.In with cheque := some ⟨1, 2, 5, 7⟩ } : Inbox Nat Nat Nat).cheque = some ⟨1, 2, 5, 7⟩ ∧
      ({ freshSwap.In with cheque := some ⟨1, 2, 5, 7⟩ } : Inbox Nat Nat Nat).cheque ≠ freshSwap.In.cheque ∧
      ({ freshSwap.In with cheque := some ⟨1, 2, 5, 7⟩ } : Inbox Nat Nat Nat).baseline zeroTally =
        (freshSwap.In.baseline zeroTally).map (· + 5) :=
  Receive_stores_refused keyAsSig zeroTally freshSwap 3 ⟨1, 2, 5, 7⟩ (by decide) rfl (by decide)

/-- What one receipt credits, in units, and what it stores while refusing,
in the increment of the cheque. -/
def Swap.receiptTally (self : Swap Address PubKey Sig) (units : Int) (promise : Cheque Address Sig) :
    Int × Int :=
  match self.In.Receive C B promise with
  | (.ok amount, _) =>
    if 0 < units then
      if units * self.localProfile.SellAt = amount then (units, 0) else (0, amount)
    else (0, 0)
  | (.error _, _) => (0, 0)

/-- One receipt moves the baseline by the units it credits, at the local
price, and by the increment it stores while refusing. -/
theorem Receive_baseline (self : Swap Address PubKey Sig) (units : Int) (promise : Cheque Address Sig) :
    (self.Receive C B units promise).2.In.baseline B =
      (self.In.baseline B).map (· + (self.localProfile.SellAt * (self.receiptTally C B units promise).1 +
        (self.receiptTally C B units promise).2)) ∧
      (self.Receive C B units promise).2.localProfile = self.localProfile := by
  unfold Swap.Receive Swap.receiptTally
  by_cases hunits : units ≤ 0
  · -- refused before the inbox sees the cheque
    rw [if_pos hunits]
    split <;> simp [if_neg (show ¬ 0 < units by omega)]
  · rw [if_neg hunits]
    dsimp only
    rcases hin : self.In.Receive C B promise with ⟨_ | amount, inbox⟩
    · -- refused by the inbox, which is left as it was
      rename_i err
      rw [Receive_error C B hin]
      simp
    · obtain ⟨-, -, -, hbaseline⟩ := Receive_ok C B hin
      simp only [if_pos (show 0 < units by omega)]
      by_cases hprice : units * self.localProfile.SellAt = amount
      · -- credited
        simp only [hprice, ne_eq, not_true_eq_false, if_false, if_true, Add_In, Add_localProfile,
          hbaseline, add_zero, and_true]
        rw [← hprice, mul_comm]
      · -- refused for its amount, and stored
        simp only [hprice, ne_eq, not_false_eq_true, if_true, if_false, hbaseline, mul_zero, zero_add,
          and_true]

/-- Receipts in turn: the swap after them, the units credited, and the
increments stored while refusing. -/
def Swap.receiveAll : Swap Address PubKey Sig → List (Int × Cheque Address Sig) →
    Swap Address PubKey Sig × Int × Int
  | self, [] => (self, 0, 0)
  | self, (units, promise) :: calls =>
    let tally := self.receiptTally C B units promise
    let rest := (self.Receive C B units promise).2.receiveAll calls
    (rest.1, tally.1 + rest.2.1, tally.2 + rest.2.2)

/-- Over every run of receipts the inbox's baseline is the first one plus
the credited units at the local price plus the increments of the cheques
stored while refusing. -/
theorem receiveAll_baseline (self : Swap Address PubKey Sig) (calls : List (Int × Cheque Address Sig)) :
    (self.receiveAll C B calls).1.In.baseline B =
      (self.In.baseline B).map (· + (self.localProfile.SellAt * (self.receiveAll C B calls).2.1 +
        (self.receiveAll C B calls).2.2)) := by
  -- on the calls, from any swap: each receipt moves the baseline by its tally
  induction calls generalizing self with
  | nil => simp [Swap.receiveAll]
  | cons call calls ih =>
    obtain ⟨units, promise⟩ := call
    obtain ⟨hstep, hprofile⟩ := Receive_baseline C B self units promise
    simp only [Swap.receiveAll]
    rw [ih, hstep, hprofile, Option.map_map]
    congr 1
    funext x
    simp only [Function.comp_apply]
    ring

/-- After a cheque of 5 for 3 units, refused and kept, a cheque of 8 for 3
units is credited: the baseline is 8, not the 3 the credited units paid. -/
example : (freshSwap.receiveAll keyAsSig zeroTally [(3, ⟨1, 2, 5, 7⟩), (3, ⟨1, 2, 8, 7⟩)]).2 = (3, 5) ∧
    (freshSwap.receiveAll keyAsSig zeroTally
      [(3, ⟨1, 2, 5, 7⟩), (3, ⟨1, 2, 8, 7⟩)]).1.In.baseline zeroTally = some 8 := by
  decide

end Swap

end GoEthereum.Swarm
