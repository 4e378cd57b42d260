import Mathlib.Tactic

/-!
The chequebook of contracts/chequebook/cheque.go, the payment handler under
the swarm swap. A `Chequebook` issues cheques from one contract to many
beneficiaries; a cheque carries the cumulative amount ever sent to its
beneficiary, so that only the last one need be cashed. An `Inbox` receives
the cheques of one contract to one beneficiary and verifies each against
the amount of the last one it accepted.

`Issue` keeps the tally of each beneficiary exact and the balance what the
deposits leave of the cheques (`Issue_ok`, `Issue_error`); `Inbox.Receive`
accepts a cheque by the increment over the baseline, and a cheque it refuses
changes nothing (`Receive_ok`, `Receive_error`).
-/

namespace GoEthereum.Contracts

structure Cheque (Address Sig : Type) where
  Contract : Address
  Beneficiary : Address
  /-- the cumulative amount of all funds sent -/
  Amount : Int
  Sig : Sig
  deriving DecidableEq

/-- The signature scheme over `sigHash(contract, beneficiary, amount)`. -/
structure Crypto (Address PubKey Sig : Type) where
  /-- crypto.Sign with the chequebook owner's key; `none` for its error -/
  Sign : Address → Address → Int → Option Sig
  /-- crypto.SigToPub; `none` for its error -/
  SigToPub : Address → Address → Int → Sig → Option PubKey

/-- The chain, as the chequebook code calls it. -/
structure Backend (Address : Type) where
  /-- whether the deposit transaction of an amount goes through -/
  Transfer : Int → Bool
  /-- the contract's `sent` tally of a beneficiary; `none` for an error of the call -/
  Sent : Address → Option Int

/-- The fields of Chequebook that Issue and deposit read and write. -/
structure Chequebook (Address : Type) where
  balance : Int
  contractAddr : Address
  sent : Address → Int
  threshold : Option Int
  buffer : Int

section Out

variable {Address PubKey Sig : Type} [DecidableEq Address] (C : Crypto Address PubKey Sig)
  (B : Backend Address)

/-- deposit; the balance is raised as soon as the transaction is sent. -/
def Chequebook.deposit (self : Chequebook Address) (amount : Int) :
    Except String Unit × Chequebook Address :=
  if B.Transfer amount then (.ok (), { self with balance := self.balance + amount })
  else (.error "error depositing", self)

/-- The cheque of Issue, before its auto deposit. -/
def Chequebook.issueCheque (self : Chequebook Address) (beneficiary : Address) (amount : Int) :
    Except String (Cheque Address Sig) × Chequebook Address :=
  if self.balance < amount then (.error "insufficient funds to issue cheque", self)
  else
    let sum := self.sent beneficiary + amount
    match C.Sign self.contractAddr beneficiary sum with
    | none => (.error "crypto.Sign", self)
    | some sig =>
      (.ok ⟨self.contractAddr, beneficiary, sum, sig⟩,
        { self with sent := Function.update self.sent beneficiary sum,
                    balance := self.balance - amount })

/-- The auto deposit at the end of Issue: below the threshold, the balance is
topped up to the buffer. -/
def autoDeposit (self : Chequebook Address) : Chequebook Address :=
  match self.threshold with
  | some threshold =>
    if self.balance < threshold then (self.deposit B (self.buffer - self.balance)).2 else self
  | none => self

def Chequebook.Issue (self : Chequebook Address) (beneficiary : Address) (amount : Int) :
    Except String (Cheque Address Sig) × Chequebook Address :=
  if amount ≤ 0 then (.error "amount must be greater than zero", self)
  else
    let issued := self.issueCheque C beneficiary amount
    -- the auto deposit is tried even when issuing failed
    (issued.1, autoDeposit B issued.2)

theorem Issue_eq (self : Chequebook Address) (beneficiary : Address) {amount : Int}
    (hpos : 0 < amount) :
    self.Issue C B beneficiary amount =
      ((self.issueCheque C beneficiary amount).1,
        autoDeposit B (self.issueCheque C beneficiary amount).2) := by
  rw [Chequebook.Issue, if_neg (by omega)]

omit [DecidableEq Address] in
theorem autoDeposit_sent (self : Chequebook Address) : (autoDeposit B self).sent = self.sent := by
  unfold autoDeposit Chequebook.deposit
  split
  · split_ifs <;> rfl
  · rfl

omit [DecidableEq Address] in
/-- The auto deposit raises the balance by what the chain takes, and never
below the buffer if it moves it. -/
theorem autoDeposit_balance (self : Chequebook Address) :
    (autoDeposit B self).balance = self.balance ∨ (autoDeposit B self).balance = self.buffer := by
  unfold autoDeposit Chequebook.deposit
  split
  · split_ifs
    · right
      dsimp only
      omega
    · left
      rfl
    · left
      rfl
  · left
    rfl

theorem issueCheque_ok {self next : Chequebook Address} {beneficiary : Address} {amount : Int}
    {ch : Cheque Address Sig} (h : self.issueCheque C beneficiary amount = (.ok ch, next)) :
    amount ≤ self.balance ∧ ch.Contract = self.contractAddr ∧ ch.Beneficiary = beneficiary ∧
      ch.Amount = self.sent beneficiary + amount ∧
      next = { self with sent := Function.update self.sent beneficiary ch.Amount,
                         balance := self.balance - amount } := by
  unfold Chequebook.issueCheque at h
  split_ifs at h with hlow
  · cases h
  · dsimp only at h
    split at h
    · cases h
    · cases h
      exact ⟨by omega, rfl, rfl, rfl, rfl⟩

/-- A cheque that is not issued leaves the chequebook as it was. -/
theorem issueCheque_error {self : Chequebook Address} {beneficiary : Address} {amount : Int}
    {err : String} (h : (self.issueCheque C beneficiary amount).1 = .error err) :
    (self.issueCheque C beneficiary amount).2 = self := by
  unfold Chequebook.issueCheque at h ⊢
  split_ifs at h ⊢
  · rfl
  · dsimp only at h ⊢
    cases hsign : C.Sign self.contractAddr beneficiary (self.sent beneficiary + amount) with
    | none => rfl
    | some sig => simp [hsign] at h

/-- An issued cheque carries the beneficiary's new tally, which grew by the
amount, as the balance shrank by it before the auto deposit. -/
theorem Issue_ok (self : Chequebook Address) {beneficiary : Address} {amount : Int}
    {ch : Cheque Address Sig} {next : Chequebook Address}
    (h : self.Issue C B beneficiary amount = (.ok ch, next)) :
    0 < amount ∧ amount ≤ self.balance ∧ ch.Contract = self.contractAddr ∧
      ch.Beneficiary = beneficiary ∧ ch.Amount = self.sent beneficiary + amount ∧
      next = autoDeposit B { self with sent := Function.update self.sent beneficiary ch.Amount,
                                       balance := self.balance - amount } := by
  have hpos : 0 < amount := by
    by_contra hle
    rw [Chequebook.Issue, if_pos (by omega)] at h
    cases h
  rw [Issue_eq C B self beneficiary hpos, Prod.mk.injEq] at h
  obtain ⟨hch, rfl⟩ := h
  obtain ⟨hlow, hcontract, hbeneficiary, hamount, hnext⟩ :=
    issueCheque_ok C (Prod.ext hch rfl : self.issueCheque C beneficiary amount = (.ok ch, _))
  exact ⟨hpos, hlow, hcontract, hbeneficiary, hamount, congrArg (autoDeposit B) hnext⟩

/-- A cheque that is not issued leaves the tallies as they were. -/
theorem Issue_error (self : Chequebook Address) {beneficiary : Address} {amount : Int}
    {err : String} {next : Chequebook Address}
    (h : self.Issue C B beneficiary amount = (.error err, next)) :
    next.sent = self.sent ∧ (next.balance = self.balance ∨ next.balance = self.buffer) := by
  by_cases hpos : 0 < amount
  · rw [Issue_eq C B self beneficiary hpos, Prod.mk.injEq] at h
    obtain ⟨hch, rfl⟩ := h
    rw [issueCheque_error C hch]
    exact ⟨autoDeposit_sent B self, autoDeposit_balance B self⟩
  · rw [Chequebook.Issue, if_pos (by omega), Prod.mk.injEq] at h
    rw [← h.2]
    exact ⟨rfl, Or.inl rfl⟩

/-- With a buffer that is not negative, the balance never is. -/
theorem Issue_balance_nonneg (self : Chequebook Address) (beneficiary : Address) (amount : Int)
    (hbalance : 0 ≤ self.balance) (hbuffer : 0 ≤ self.buffer) :
    0 ≤ (self.Issue C B beneficiary amount).2.balance := by
  rcases hissue : self.Issue C B beneficiary amount with ⟨_ | ch, next⟩
  · obtain ⟨-, hbal | hbal⟩ := Issue_error C B self hissue
    · rw [hbal]
      exact hbalance
    · rw [hbal]
      exact hbuffer
  · obtain ⟨-, hlow, -, -, -, rfl⟩ := Issue_ok C B self hissue
    -- the cheque is covered, and the auto deposit tops up to the buffer at most
    rcases autoDeposit_balance B _ with hbal | hbal
    · rw [hbal]
      dsimp only
      omega
    · rw [hbal]
      exact hbuffer

/-- Issue in turn: the chequebook after the calls, and the beneficiary and
amount of each cheque issued. -/
def Chequebook.issueAll : Chequebook Address → List (Address × Int) →
    Chequebook Address × List (Address × Int)
  | self, [] => (self, [])
  | self, (beneficiary, amount) :: calls =>
    match self.Issue C B beneficiary amount with
    | (.ok _, next) =>
      let rest := next.issueAll calls
      (rest.1, (beneficiary, amount) :: rest.2)
    | (.error _, next) => next.issueAll calls

/-- Over every run of Issue each beneficiary's tally grows by what was
issued to that beneficiary, and by nothing else. -/
theorem issueAll_sent (self : Chequebook Address) (calls : List (Address × Int)) (b : Address) :
    (self.issueAll C B calls).1.sent b =
      self.sent b + (((self.issueAll C B calls).2.filter (fun p => decide (p.1 = b))).map (·.2)).sum := by
  -- on the calls, from any chequebook: each issued cheque moves its beneficiary's tally alone
  induction calls generalizing self with
  | nil => simp [Chequebook.issueAll]
  | cons call calls ih =>
    obtain ⟨beneficiary, amount⟩ := call
    rcases hissue : self.Issue C B beneficiary amount with ⟨_ | ch, next⟩
    · have hsent := (Issue_error C B self hissue).1
      simp only [Chequebook.issueAll, hissue, ih, hsent]
    · obtain ⟨-, -, -, -, hamount, hnext⟩ := Issue_ok C B self hissue
      have hsent : next.sent = Function.update self.sent beneficiary ch.Amount := by
        rw [hnext, autoDeposit_sent]
      simp only [Chequebook.issueAll, hissue, ih, hsent]
      by_cases hb : beneficiary = b
      · subst hb
        simp only [Function.update_self, hamount, List.filter_cons, decide_true, if_true, List.map_cons,
          List.sum_cons]
        ring
      · simp [Function.update_of_ne (Ne.symm hb), hb]

end Out

/-! ### The inbox -/

/-- The fields of Inbox that Receive and Cash read and write. -/
structure Inbox (Address PubKey Sig : Type) where
  contract : Address
  beneficiary : Address
  signer : PubKey
  maxUncashed : Option Int
  cashed : Int
  /-- the last cheque accepted, `none` before the first -/
  cheque : Option (Cheque Address Sig)

section In

variable {Address PubKey Sig : Type} [DecidableEq Address] [DecidableEq PubKey]
  (C : Crypto Address PubKey Sig) (B : Backend Address)

/-- Verify: the increment of the cheque over `sum`. -/
def Cheque.Verify (self : Cheque Address Sig) (signerKey : PubKey) (contract beneficiary : Address)
    (sum : Int) : Except String Int :=
  if self.Beneficiary ≠ beneficiary then .error "beneficiary mismatch"
  else if self.Contract ≠ contract then .error "contract mismatch"
  else if self.Amount - sum ≤ 0 then .error "incorrect amount"
  else
    match C.SigToPub self.Contract beneficiary self.Amount self.Sig with
    | none => .error "invalid signature"
    | some pubKey => if pubKey ≠ signerKey then .error "signer mismatch" else .ok (self.Amount - sum)

/-- Cash; the cashed amount is set whether or not the transaction goes
through. -/
def Inbox.Cash (self : Inbox Address PubKey Sig) : Inbox Address PubKey Sig :=
  match self.cheque with
  | some ch => { self with cashed := ch.Amount }
  | none => self

/-- The sum a cheque is verified against: the amount of the last cheque
accepted, or the tally on the chain before the first. -/
def Inbox.baseline (self : Inbox Address PubKey Sig) : Option Int :=
  match self.cheque with
  | some ch => some ch.Amount
  | none => B.Sent self.beneficiary

def Inbox.Receive (self : Inbox Address PubKey Sig) (ch : Cheque Address Sig) :
    Except String Int × Inbox Address PubKey Sig :=
  -- the sum is checked against the blockchain once a cheque is received
  match self.baseline B with
  | none => (.error "inbox: error calling backend to set amount", self)
  | some sum =>
    match ch.Verify C self.signer self.contract self.beneficiary sum with
    | .error err => (.error err, self)
    | .ok amount =>
      let self := { self with cheque := some ch }
      match self.maxUncashed with
      | some maxUncashed =>
        if maxUncashed < ch.Amount - self.cashed then (.ok amount, self.Cash) else (.ok amount, self)
      | none => (.ok amount, self)

theorem Verify_ok {ch : Cheque Address Sig} {signerKey : PubKey} {contract beneficiary : Address}
    {sum amount : Int} (h : ch.Verify C signerKey contract beneficiary sum = .ok amount) :
    amount = ch.Amount - sum ∧ 0 < amount := by
  unfold Cheque.Verify at h
  split_ifs at h with hb hc hamount
  split at h
  · cases h
  · split_ifs at h
    cases h
    exact ⟨rfl, by omega⟩

/-- A cheque the inbox accepts becomes its last, and raises the baseline by
the amount it returns. -/
theorem Receive_ok {self inbox : Inbox Address PubKey Sig} {ch : Cheque Address Sig} {amount : Int}
    (h : self.Receive C B ch = (.ok amount, inbox)) :
    0 < amount ∧ inbox.cheque = some ch ∧ inbox.beneficiary = self.beneficiary ∧
      inbox.baseline B = (self.baseline B).map (· + amount) := by
  unfold Inbox.Receive at h
  split at h
  · cases h
  · rename_i sum hsum
    split at h
    · cases h
    · rename_i amount' hverify
      obtain ⟨hamount, hpos⟩ := Verify_ok C hverify
      -- with or without cashing, the cheque is kept
      have hkeep : inbox = { self with cheque := some ch } ∨
          inbox = ({ self with cheque := some ch } : Inbox Address PubKey Sig).Cash := by
        dsimp only at h
        split at h
        · split_ifs at h
          · cases h
            exact Or.inr rfl
          · cases h
            exact Or.inl rfl
        · cases h
          exact Or.inl rfl
      have hres : amount' = amount := by
        dsimp only at h
        split at h
        · split_ifs at h <;> cases h <;> rfl
        · cases h
          rfl
      subst hres
      -- the new baseline is the cheque's amount, the old one plus the increment
      have hbase : some ch.Amount = (self.baseline B).map (· + amount') := by
        rw [hsum, hamount, Option.map_some, add_sub_cancel]
      rcases hkeep with rfl | rfl
      · exact ⟨hpos, rfl, rfl, hbase⟩
      · exact ⟨hpos, rfl, rfl, hbase⟩

/-- A cheque the inbox refuses changes nothing. -/
theorem Receive_error {self inbox : Inbox Address PubKey Sig} {ch : Cheque Address Sig} {err : String}
    (h : self.Receive C B ch = (.error err, inbox)) : inbox = self := by
  unfold Inbox.Receive at h
  split at h
  · exact (Prod.mk.inj h).2.symm
  · split at h
    · exact (Prod.mk.inj h).2.symm
    · dsimp only at h
      split at h
      · split_ifs at h <;> cases h
      · cases h

end In

end GoEthereum.Contracts
