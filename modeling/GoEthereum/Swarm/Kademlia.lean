import Mathlib

/-!
The table of active peers of the swarm Kademlia
(`swarm/network/kademlia/kademlia.go`): `On`, `Off`, and the adjustment of the
most proximate bin in `setProxLimit`. A peer goes to the bucket of its
proximity order, capped at `MaxProx`; the buckets from `proxLimit` on form
the most proximate bin. `setProxLimit` keeps that bin as small as it can be
while it holds `ProxBinSize` peers and leaves no empty bucket below it.

From a fresh table, every run of `On` and `Off` whose `Off`s are of
addresses given to an earlier `On` never panics and leaves the bin as
`proxCheck` wants it (`run_keeps_proxLimit`), from the specs of the two loops
of `setProxLimit` (`contractLoop_spec`, `expandLoop_spec`).
-/

namespace GoEthereum.Swarm

/-- `Address`, the bytes of a `common.Hash`. -/
abbrev Address := List UInt8

/-- The inner loop of `proximity`: the position of the first set bit of a
byte, from the most significant one, 8 when there is none. -/
def firstSetBit (oxo : UInt8) : Nat :=
  ((List.range 8).find? fun j => (oxo >>> (7 - j).toUInt8) &&& 1 != 0).getD 8

/-- `proximity`: the number of leading bits two addresses share. -/
def proximity : Address → Address → Nat
  | a :: one, b :: other =>
    if firstSetBit (a ^^^ b) < 8 then firstSetBit (a ^^^ b) else 8 + proximity one other
  | _, _ => 0

/-- A peer as `On` and `Off` see it: `Addr()` and `LastActive()`. -/
structure Node where
  Addr : Address
  LastActive : Int
  deriving DecidableEq, Repr

/-- The parameters of `KadParams` that the table reads; the others configure
the node database. -/
structure KadParams where
  MaxProx : Nat
  ProxBinSize : Nat
  BucketSize : Nat
  MaxIdleInterval : Int
  deriving DecidableEq, Repr

/-- `Kademlia`; `dbIndex` is the set of addresses `db.index` holds a node
record for. -/
structure Kademlia where
  addr : Address
  params : KadParams
  proxLimit : Nat
  proxSize : Nat
  count : Int
  buckets : List (List Node)
  dbIndex : List Address
  deriving DecidableEq, Repr

/-- How a call that does not return `nil` ends. -/
inductive KadError where
  /-- `fmt.Errorf("unable to add node %v, callback error: %v", ...)` -/
  | callback (addr : Address) (err : String)
  /-- `fmt.Errorf("bucket full")` -/
  | bucketFull
  /-- a runtime panic, with its message -/
  | panic (message : String)
  deriving DecidableEq, Repr

/-- `New`: `MaxProx + 1` empty buckets and an empty node database. -/
def New (addr : Address) (params : KadParams) : Kademlia :=
  { addr := addr, params := params, proxLimit := 0, proxSize := 0, count := 0,
    buckets := List.replicate (params.MaxProx + 1) [], dbIndex := [] }

def Kademlia.proximityBin (self : Kademlia) (other : Address) : Nat :=
  let ret := proximity self.addr other
  if ret > self.params.MaxProx then self.params.MaxProx else ret

/-- The contraction loop of `setProxLimit`, over the buckets from `proxLimit`
on: while the bin without its furthest bucket still holds `ProxBinSize` peers,
that bucket leaves it. A read past the last bucket panics (`none`). -/
def contractLoop (P : Nat) : Nat → Nat → List (List Node) → Option (Nat × Nat)
  | _, _, [] => none
  | size, limit, b :: bs =>
    if size ≥ P + b.length ∧ b.length > 0 then contractLoop P (size - b.length) (limit + 1) bs
    else some (size, limit)

/-- The expansion loop of `setProxLimit`: the bin takes in the bucket below it
until it holds `ProxBinSize` peers and covers bucket `r`, or reaches bucket
0. -/
def expandLoop (P r : Nat) (buckets : List (List Node)) : Nat → Nat → Option (Nat × Nat)
  | size, 0 => some (size, 0)
  | size, limit + 1 =>
    if size < P ∨ r < limit + 1 then
      match buckets[limit]? with
      | none => none
      | some b => expandLoop P r buckets (size + b.length) limit
    else some (size, limit + 1)

/-- `setProxLimit` after bucket `r` gained a peer (`on`) or lost one; the
callers pass the bucket they just changed, so its read is in range. The `int`
`proxSize` is a `Nat` here: it is decremented only when a bucket of the bin
lost a peer, which it counts. -/
def Kademlia.setProxLimit (self : Kademlia) (r : Nat) (on : Bool) : Option Kademlia :=
  if r < self.proxLimit ∧ (self.buckets.getD r []).length > 0 then some self
  else if on then
    (contractLoop self.params.ProxBinSize (self.proxSize + 1) self.proxLimit
      (self.buckets.drop self.proxLimit)).map
        fun (size, limit) => { self with proxSize := size, proxLimit := limit }
  else
    let size := if r ≥ self.proxLimit then self.proxSize - 1 else self.proxSize
    (expandLoop self.params.ProxBinSize r self.buckets size self.proxLimit).map
      fun (size, limit) => { self with proxSize := size, proxLimit := limit }

/-- The scan of a full bucket in `On`: the position of the peer idle for
longest, if it has been idle for more than `MaxIdleInterval`; `idle` is the
longest idle time so far and `replaced` the position it was found at. -/
def idleScan (now : Int) : Int → Nat → Option Nat → List Node → Option Nat
  | _, _, replaced, [] => replaced
  | idle, i, replaced, p :: ps =>
    if now - p.LastActive > idle then idleScan now (now - p.LastActive) (i + 1) (some i) ps
    else idleScan now idle (i + 1) replaced ps

/-- `Kademlia.On` at time `now`; `cb` is what the callback returns, `.ok ()`
also when there is none. -/
def Kademlia.On (node : Node) (now : Int) (cb : Except String Unit) :
    EStateM KadError Kademlia Unit := fun self =>
  let index := self.proximityBin node.Addr
  -- `db.findOrCreate`: a record for the address, before the callback runs
  let self := { self with
    dbIndex := if node.Addr ∈ self.dbIndex then self.dbIndex else node.Addr :: self.dbIndex }
  match cb with
  | .error err => .error (.callback node.Addr err) self
  | .ok () =>
    match self.buckets[index]? with
    | none => .error (.panic "index out of range") self
    | some bucket =>
      if bucket.length < self.params.BucketSize then
        match { self with buckets := self.buckets.set index (bucket ++ [node]) }.setProxLimit
            index true with
        | none => .error (.panic "index out of range") self
        | some self => .ok () { self with count := self.count + 1 }
      else
        match idleScan now self.params.MaxIdleInterval 0 none bucket with
        | none => .error .bucketFull self
        | some pos =>
          .ok () { self with buckets := self.buckets.set index (bucket.set pos node),
                             count := self.count + 1 }

/-- `Kademlia.Off`. -/
def Kademlia.Off (node : Node) : EStateM KadError Kademlia Unit := fun self =>
  let index := self.proximityBin node.Addr
  match self.buckets[index]? with
  | none => .error (.panic "index out of range") self
  | some bucket =>
    let removed :=
      match bucket.findIdx? (fun p => node.Addr == p.Addr) with
      | none => some self
      | some i => { self with buckets := self.buckets.set index (bucket.eraseIdx i) }.setProxLimit
          index false
    match removed with
    | none => .error (.panic "index out of range") self
    | some self =>
      -- `record.node = nil` on `db.index[node.Addr()]`, nil without a record
      if node.Addr ∈ self.dbIndex then .ok () { self with count := self.count - 1 }
      else .error (.panic "invalid memory address or nil pointer dereference") self

/-- A call on the table. -/
inductive Call where
  | On (node : Node) (now : Int) (cb : Except String Unit)
  | Off (node : Node)

def Call.exec : Call → EStateM KadError Kademlia Unit
  | .On node now cb => Kademlia.On node now cb
  | .Off node => Kademlia.Off node

/-- A run of calls: a call that returns an error leaves the table as it left
it and the caller goes on, a panic ends the run (`none`). -/
def run : List Call → Kademlia → Option Kademlia
  | [], k => some k
  | c :: cs, k =>
    match c.exec k with
    | .ok () k => run cs k
    | .error (.panic _) _ => none
    | .error _ k => run cs k

/-- Every `Off` is of an address that an earlier `On` was called with, given
the addresses `seen` so far. -/
def OffAfterOn : List Address → List Call → Prop
  | _, [] => True
  | seen, .On node _ _ :: cs => OffAfterOn (node.Addr :: seen) cs
  | seen, .Off node :: cs => node.Addr ∈ seen ∧ OffAfterOn seen cs

/-- `proxCheck` of `kademlia_test.go`: no empty bucket below `proxLimit`, and,
when the bin is not empty, its size is `proxSize`, it holds `ProxBinSize` peers
unless `proxLimit` is 0, and it would not without its furthest bucket. -/
def Kademlia.proxCheck (self : Kademlia) : Bool :=
  let sum := ((self.buckets.drop self.proxLimit).map List.length).sum
  let last := (self.buckets.getD self.proxLimit []).length
  (self.buckets.take self.proxLimit).all (fun b => b.length != 0) &&
    (sum = 0 ||
      (sum == self.proxSize && !(last > 0 && sum ≥ self.params.ProxBinSize + last) &&
        !(self.proxLimit > 0 && sum < self.params.ProxBinSize)))

/-! ### The bin's invariant over the bucket sizes -/

/-- The invariant of the most proximate bin over the bucket sizes `lens`: the
bin starts at a bucket, holds `size` peers, has no empty bucket below it, holds
`P` peers unless it starts at bucket 0, and needs its furthest bucket. -/
structure ProxInv (P : Nat) (lens : List Nat) (limit size : Nat) : Prop where
  limit_lt : limit < lens.length
  size_eq : size = (lens.drop limit).sum
  below : ∀ n ∈ lens.take limit, 0 < n
  full : 0 < limit → P ≤ size
  minimal : lens.getD limit 0 = 0 ∨ size < P + lens.getD limit 0

theorem sum_drop_eq_getD {l : List Nat} {i : Nat} (h : i < l.length) :
    (l.drop i).sum = l.getD i 0 + (l.drop (i + 1)).sum := by
  rw [List.drop_eq_getElem_cons h, List.sum_cons, List.getD_eq_getElem?_getD,
    List.getElem?_eq_getElem h, Option.getD_some]

theorem getD_set {l : List Nat} {r i a : Nat} (hr : r < l.length) :
    (l.set r a).getD i 0 = if r = i then a else l.getD i 0 := by
  simp only [List.getD_eq_getElem?_getD, List.getElem?_set, hr, if_true]
  split <;> rfl

theorem sum_set_add {l : List Nat} {r a : Nat} (hr : r < l.length) :
    (l.set r a).sum + l.getD r 0 = l.sum + a := by
  induction l generalizing r with
  | nil => simp at hr
  | cons x l ih =>
    cases r with
    | zero => simp; omega
    | succ r =>
      have := ih (r := r) (by simpa using hr)
      simp only [List.set_cons_succ, List.sum_cons, List.getD_cons_succ]
      omega

/-- A bucket of the bin changes size: so does the bin. -/
theorem sum_drop_set_add {l : List Nat} {L r a : Nat} (hL : L ≤ r) (hr : r < l.length) :
    ((l.set r a).drop L).sum + l.getD r 0 = (l.drop L).sum + a := by
  have hget : (l.drop L).getD (r - L) 0 = l.getD r 0 := by
    simp only [List.getD_eq_getElem?_getD, List.getElem?_drop]
    congr 2
    omega
  rw [List.drop_set, if_neg (by omega), ← hget]
  exact sum_set_add (by simp; omega)

theorem ProxInv.cons {P b k size : Nat} {lens : List Nat} (h : ProxInv P lens k size)
    (hb : 0 < b) (hfull : P ≤ size) : ProxInv P (b :: lens) (k + 1) size where
  limit_lt := by simpa using h.limit_lt
  size_eq := by simpa using h.size_eq
  below := by
    intro n hn
    rw [List.take_succ_cons, List.mem_cons] at hn
    rcases hn with rfl | hn
    · exact hb
    · exact h.below n hn
  full := fun _ => hfull
  minimal := by simpa using h.minimal

/-- Buckets below the bin that are all non-empty can be put in front. -/
theorem ProxInv.append {P k size : Nat} {pre lens : List Nat} (h : ProxInv P lens k size)
    (hpre : ∀ n ∈ pre, 0 < n) (hfull : 0 < pre.length → P ≤ size) :
    ProxInv P (pre ++ lens) (pre.length + k) size := by
  induction pre with
  | nil => simpa using h
  | cons b pre ih =>
    have htail := ih (fun n hn => hpre n (List.mem_cons_of_mem _ hn)) (fun _ => hfull (by simp))
    have hcons := htail.cons (hpre b List.mem_cons_self) (hfull (by simp))
    rw [List.cons_append, List.length_cons, Nat.add_right_comm]
    exact hcons

/-! ### The two loops of `setProxLimit` -/

/-- The contraction loop stops inside the buckets it is given, at a bin that
satisfies the invariant over them. -/
theorem contractLoop_spec {P : Nat} (hP : 0 < P) (bs : List (List Node)) :
    ∀ (size limit : Nat), bs ≠ [] → size = (bs.map List.length).sum →
      ∃ k size', contractLoop P size limit bs = some (size', limit + k) ∧
        ProxInv P (bs.map List.length) k size' := by
  induction bs with
  | nil => intro _ _ hne; exact absurd rfl hne
  | cons b bs ih =>
    intro size limit _ hsize
    rw [List.map_cons, List.sum_cons] at hsize
    by_cases hc : size ≥ P + b.length ∧ b.length > 0
    · -- `b` leaves the bin; the rest is not empty, since it holds `P > 0` peers
      have hne : bs ≠ [] := by
        rintro rfl
        simp at hsize
        omega
      obtain ⟨k, size', hloop, hinv⟩ := ih (size - b.length) (limit + 1) hne (by omega)
      have hfull : P ≤ size' := by
        rcases Nat.eq_zero_or_pos k with rfl | hk
        · rw [hinv.size_eq, List.drop_zero]
          omega
        · exact hinv.full hk
      refine ⟨k + 1, size', ?_, ?_⟩
      · rw [contractLoop, if_pos hc, hloop, Nat.add_assoc, Nat.add_comm 1 k]
      · rw [List.map_cons]
        exact hinv.cons hc.2 hfull
    · refine ⟨0, size, by rw [contractLoop, if_neg hc, Nat.add_zero], ?_⟩
      refine ⟨by simp, by simp; omega, by simp, by simp, ?_⟩
      simp only [List.map_cons, List.getD_cons_zero]
      omega

/-- The expansion loop stops at a bin that holds `P` peers and covers bucket
`r`, or at bucket 0; when it moved, its last step was needed. -/
theorem expandLoop_spec {P r : Nat} {buckets : List (List Node)} (limit : Nat) :
    ∀ size, limit < buckets.length → size = ((buckets.map List.length).drop limit).sum →
      ∃ limit', limit' ≤ limit ∧
        expandLoop P r buckets size limit =
          some (((buckets.map List.length).drop limit').sum, limit') ∧
        (limit' = 0 ∨ (P ≤ ((buckets.map List.length).drop limit').sum ∧ limit' ≤ r)) ∧
        (limit' < limit → ((buckets.map List.length).drop (limit' + 1)).sum < P ∨ limit' = r) := by
  induction limit with
  | zero =>
    intro size _ hsize
    exact ⟨0, le_rfl, by rw [expandLoop, hsize], .inl rfl, by omega⟩
  | succ limit ih =>
    intro size hlt hsize
    by_cases hc : size < P ∨ r < limit + 1
    · -- the bucket below joins the bin
      have hb : buckets[limit]? = some buckets[limit] := List.getElem?_eq_getElem (by omega)
      have hsize' : size + buckets[limit].length = ((buckets.map List.length).drop limit).sum := by
        rw [sum_drop_eq_getD (by simp; omega), hsize]
        simp [List.getD_eq_getElem?_getD, hb, Nat.add_comm]
      obtain ⟨l', hle, hloop, hexit, hlast⟩ := ih _ (by omega) hsize'
      refine ⟨l', by omega, by rw [expandLoop, if_pos hc, hb]; exact hloop, hexit, fun _ => ?_⟩
      rcases Nat.lt_or_ge l' limit with h | h
      · exact hlast h
      · -- the last step was this one
        obtain rfl : l' = limit := by omega
        rcases hc with hc | hc
        · left
          rw [← hsize]
          exact hc
        · right
          omega
    · refine ⟨limit + 1, le_rfl, by rw [expandLoop, if_neg hc, hsize], .inr ⟨?_, ?_⟩, by omega⟩
      · rw [← hsize]
        omega
      · omega

/-- A bucket below the bin changes size and stays non-empty: the bin is as it
was. -/
theorem ProxInv.set_below {P L S r a : Nat} {lens : List Nat} (h : ProxInv P lens L S)
    (hlow : r < L) (ha : 0 < a) : ProxInv P (lens.set r a) L S where
  limit_lt := by simpa using h.limit_lt
  size_eq := by rw [List.drop_set_of_lt hlow]; exact h.size_eq
  below := by
    intro n hn
    rw [List.take_set] at hn
    rcases List.mem_or_eq_of_mem_set hn with hn | rfl
    · exact h.below n hn
    · exact ha
  full := h.full
  minimal := by
    rw [getD_set (by have := h.limit_lt; omega), if_neg (by omega)]
    exact h.minimal

theorem getD_map_length {l : List (List Node)} {i : Nat} :
    (l.map List.length).getD i 0 = (l.getD i []).length :=
  List.getD_map l [] List.length

/-- After bucket `r` lost a peer (its size was `a + 1`), an expansion that
stops as `expandLoop_spec` says restores the invariant. Unless the bucket
emptied below the bin, the guard of `setProxLimit` is what keeps the bin
from being left as it was. -/
theorem ProxInv.expand {P L S r a L' : Nat} {lens : List Nat} (h : ProxInv P lens L S)
    (hr : r < lens.length) (ha : a + 1 = lens.getD r 0) (hguard : ¬(r < L ∧ 0 < a))
    (hle : L' ≤ L) (hexit : L' = 0 ∨ (P ≤ ((lens.set r a).drop L').sum ∧ L' ≤ r))
    (hlast : L' < L → ((lens.set r a).drop (L' + 1)).sum < P ∨ L' = r) :
    ProxInv P (lens.set r a) L' ((lens.set r a).drop L').sum where
  limit_lt := by have := h.limit_lt; simp; omega
  size_eq := rfl
  below := by
    have hrL' : L' ≤ r := by omega
    intro n hn
    rw [List.take_set_of_le hrL'] at hn
    have hn' : n ∈ (lens.take L).take L' := by rwa [List.take_take, Nat.min_eq_left hle]
    exact h.below n (List.mem_of_mem_take hn')
  full := by
    intro hpos
    rcases hexit with h0 | ⟨hP, _⟩
    · omega
    · exact hP
  minimal := by
    have hS := sum_drop_eq_getD h.limit_lt
    have hmin := h.minimal
    rw [h.size_eq, hS] at hmin
    rw [sum_drop_eq_getD (by simp; omega)]
    rcases Nat.lt_or_ge L' L with hlt | hge
    · rcases hlast hlt with hlt' | rfl
      · omega
      · -- the bin moved down to bucket `r`, which the guard lets through only empty
        left
        rw [getD_set hr, if_pos rfl]
        omega
    · obtain rfl : L' = L := by omega
      rcases Nat.lt_or_ge L' r with hLr | hLr
      · -- a bucket past the first of the bin lost a peer
        have hdrop := sum_drop_set_add (a := a) (show L' + 1 ≤ r by omega) hr
        rw [getD_set hr, if_neg (by omega)]
        omega
      · -- the first bucket of the bin lost a peer and is still needed
        obtain rfl : r = L' := by omega
        rw [getD_set hr, if_pos rfl, List.drop_set_of_lt (by omega)]
        omega

/-- `setProxLimit` changes only the limit and the size of the bin. -/
theorem setProxLimit_some {k k' : Kademlia} {r : Nat} {on : Bool}
    (h : k.setProxLimit r on = some k') :
    ∃ limit size, k' = { k with proxLimit := limit, proxSize := size } := by
  unfold Kademlia.setProxLimit at h
  split_ifs at h
  · cases h
    exact ⟨k.proxLimit, k.proxSize, rfl⟩
  all_goals
    obtain ⟨⟨size, limit⟩, -, rfl⟩ := Option.map_eq_some_iff.mp h
    exact ⟨limit, size, rfl⟩

section SetProxLimit

variable {k : Kademlia} {r : Nat} {b : List Node}

/-- `setProxLimit r true` after bucket `r` gained a peer restores the
invariant: below the bin nothing changes, in the bin the contraction loop
finds the new limit. -/
theorem setProxLimit_on (hP : 0 < k.params.ProxBinSize)
    (hinv : ProxInv k.params.ProxBinSize (k.buckets.map List.length) k.proxLimit k.proxSize)
    (hr : r < k.buckets.length) (hb : b.length = (k.buckets.getD r []).length + 1) :
    ∃ k', { k with buckets := k.buckets.set r b }.setProxLimit r true = some k' ∧
      ProxInv k.params.ProxBinSize ((k.buckets.set r b).map List.length) k'.proxLimit
        k'.proxSize := by
  have hr' : r < (k.buckets.map List.length).length := by simpa using hr
  have hset : (k.buckets.set r b).map List.length = (k.buckets.map List.length).set r b.length :=
    List.map_set
  by_cases hlow : r < k.proxLimit
  · have hguard : ((k.buckets.set r b).getD r []).length > 0 := by
      simp [List.getD_eq_getElem?_getD, hr, hb]
    refine ⟨_, if_pos ⟨hlow, hguard⟩, ?_⟩
    rw [hset]
    exact hinv.set_below hlow (by omega)
  · -- the bin grew by one peer: contract it
    have hL : k.proxLimit ≤ r := by omega
    have hsum : k.proxSize + 1 = (((k.buckets.set r b).drop k.proxLimit).map List.length).sum := by
      have := sum_drop_set_add (a := b.length) hL hr'
      rw [List.map_drop, hset, hinv.size_eq]
      rw [getD_map_length] at this
      omega
    have hne : (k.buckets.set r b).drop k.proxLimit ≠ [] := by
      have := hinv.limit_lt
      simp only [List.length_map] at this
      simp only [ne_eq, List.drop_eq_nil_iff, List.length_set, not_le]
      exact this
    obtain ⟨j, size', hloop, hbs⟩ :=
      contractLoop_spec hP _ (k.proxSize + 1) k.proxLimit hne hsum
    refine ⟨{ k with buckets := k.buckets.set r b, proxSize := size'
                     proxLimit := k.proxLimit + j }, ?_, ?_⟩
    · rw [Kademlia.setProxLimit, if_neg (by simp [hlow]), if_pos rfl]
      simp only [hloop, Option.map_some]
    · -- the buckets below the old limit are untouched and not empty
      rw [List.map_drop] at hbs
      have hpre : ∀ n ∈ ((k.buckets.set r b).map List.length).take k.proxLimit, 0 < n := by
        rw [hset, List.take_set_of_le hL]
        exact hinv.below
      have hfull : 0 < (((k.buckets.set r b).map List.length).take k.proxLimit).length →
          k.params.ProxBinSize ≤ size' := by
        intro hpos
        rcases Nat.eq_zero_or_pos j with rfl | hj
        · -- no bucket left the bin: it is the old one with one more peer
          have hsize : size' = k.proxSize + 1 := by
            rw [hbs.size_eq, List.drop_zero, ← List.map_drop, ← hsum]
          have := hinv.full (by simp at hpos; omega)
          omega
        · exact hbs.full hj
      have happ := hbs.append hpre hfull
      rw [List.take_append_drop, List.length_take, List.length_map, List.length_set,
        Nat.min_eq_left (by have := hinv.limit_lt; simp at this; omega)] at happ
      exact happ

/-- `setProxLimit r false` after bucket `r` lost a peer restores the
invariant. -/
theorem setProxLimit_off
    (hinv : ProxInv k.params.ProxBinSize (k.buckets.map List.length) k.proxLimit k.proxSize)
    (hr : r < k.buckets.length) (hb : b.length + 1 = (k.buckets.getD r []).length) :
    ∃ k', { k with buckets := k.buckets.set r b }.setProxLimit r false = some k' ∧
      ProxInv k.params.ProxBinSize ((k.buckets.set r b).map List.length) k'.proxLimit
        k'.proxSize := by
  have hr' : r < (k.buckets.map List.length).length := by simpa using hr
  have hset : (k.buckets.set r b).map List.length = (k.buckets.map List.length).set r b.length :=
    List.map_set
  have ha : b.length + 1 = (k.buckets.map List.length).getD r 0 := by
    rw [getD_map_length]
    exact hb
  by_cases hguard : r < k.proxLimit ∧ ((k.buckets.set r b).getD r []).length > 0
  · refine ⟨_, if_pos hguard, ?_⟩
    have hpos : 0 < b.length := by simpa [List.getD_eq_getElem?_getD, hr] using hguard.2
    rw [hset]
    exact hinv.set_below hguard.1 hpos
  · have hguard' : ¬(r < k.proxLimit ∧ 0 < b.length) := by
      simpa [List.getD_eq_getElem?_getD, hr] using hguard
    have hsize : (if r ≥ k.proxLimit then k.proxSize - 1 else k.proxSize) =
        (((k.buckets.set r b).map List.length).drop k.proxLimit).sum := by
      rw [hset]
      split_ifs with hL
      · have := sum_drop_set_add (a := b.length) hL hr'
        rw [hinv.size_eq]
        omega
      · rw [List.drop_set_of_lt (by omega), hinv.size_eq]
    obtain ⟨L', hle, hloop, hexit, hlast⟩ :=
      expandLoop_spec (P := k.params.ProxBinSize) (r := r) k.proxLimit _
        (by simpa using hinv.limit_lt) hsize
    refine ⟨{ k with buckets := k.buckets.set r b, proxLimit := L'
                     proxSize := (((k.buckets.set r b).map List.length).drop L').sum }, ?_, ?_⟩
    · rw [Kademlia.setProxLimit, if_neg hguard, if_neg Bool.false_ne_true]
      simp only [hloop, Option.map_some]
    · rw [hset] at hexit hlast ⊢
      exact hinv.expand hr' ha hguard' hle hexit hlast

end SetProxLimit

/-! ### The table's invariant over runs -/

/-- The invariant of the table: one bucket for each proximity order up to
`MaxProx`, and the bin as `ProxInv` says over their sizes. -/
structure Kademlia.Inv (k : Kademlia) : Prop where
  length_buckets : k.buckets.length = k.params.MaxProx + 1
  prox : ProxInv k.params.ProxBinSize (k.buckets.map List.length) k.proxLimit k.proxSize

theorem Kademlia.proximityBin_le (k : Kademlia) (a : Address) :
    k.proximityBin a ≤ k.params.MaxProx := by
  unfold Kademlia.proximityBin
  dsimp only
  split_ifs with h
  · exact le_rfl
  · omega

/-- The bucket of an address is in range. -/
theorem Kademlia.Inv.proximityBin_lt {k : Kademlia} (h : k.Inv) (a : Address) :
    k.proximityBin a < k.buckets.length := by
  have := k.proximityBin_le a
  rw [h.length_buckets]
  omega

/-- A write that keeps the size of a bucket keeps every bucket size. -/
theorem map_length_set_same {l : List (List Node)} {i : Nat} {x y : List Node}
    (hx : l[i]? = some x) (hy : y.length = x.length) :
    (l.set i y).map List.length = l.map List.length := by
  apply List.ext_getElem?
  intro j
  rw [List.getElem?_map, List.getElem?_map, List.getElem?_set]
  by_cases hij : i = j
  · subst hij
    obtain ⟨hi, rfl⟩ := List.getElem?_eq_some_iff.mp hx
    simp [hi, hy]
  · rw [if_neg hij]

/-- The invariant reads only the parameters, the buckets and the bin. -/
theorem Kademlia.Inv.frame {k k' : Kademlia} (h : k.Inv) (hparams : k'.params = k.params)
    (hbuckets : k'.buckets = k.buckets) (hlimit : k'.proxLimit = k.proxLimit)
    (hsize : k'.proxSize = k.proxSize) : k'.Inv where
  length_buckets := by rw [hbuckets, hparams]; exact h.length_buckets
  prox := by rw [hbuckets, hparams, hlimit, hsize]; exact h.prox

theorem inv_New (addr : Address) (params : KadParams) : (New addr params).Inv where
  length_buckets := by simp [New]
  prox :=
    { limit_lt := by simp [New]
      size_eq := by simp [New]
      below := by simp [New]
      full := by simp [New]
      minimal := by simp [New] }

/-- A call ends in a table where `Q` holds: it returns, or it fails with an
error that is not a panic. -/
def Settles (Q : Kademlia → Prop) : EStateM.Result KadError Kademlia Unit → Prop
  | .ok () k => Q k
  | .error (.panic _) _ => False
  | .error _ k => Q k

/-- A call that settles lets the run go on from where it left the table. -/
theorem run_cons_of_settles {Q : Kademlia → Prop} (c : Call) (cs : List Call) {k : Kademlia}
    (h : Settles Q (c.exec k)) : ∃ k', Q k' ∧ run (c :: cs) k = run cs k' := by
  rcases hc : c.exec k with ⟨⟨⟩, k'⟩ | ⟨e, k'⟩
  · rw [hc] at h
    exact ⟨k', h, by rw [run, hc]⟩
  · rw [hc] at h
    cases e with
    | panic _ => exact h.elim
    | callback _ _ => exact ⟨k', h, by rw [run, hc]⟩
    | bucketFull => exact ⟨k', h, by rw [run, hc]⟩

section Calls

variable {k : Kademlia} {node : Node}

/-- `On` settles in a table that keeps the invariant and the parameters, and
holds a record of the address it was given besides the records it had. -/
theorem on_settles (hP : 0 < k.params.ProxBinSize) (hinv : k.Inv) (now : Int)
    (cb : Except String Unit) :
    Settles (fun k' => k'.Inv ∧ k'.params = k.params ∧ node.Addr ∈ k'.dbIndex ∧
      ∀ a ∈ k.dbIndex, a ∈ k'.dbIndex) (k.On node now cb) := by
  have hbin := hinv.proximityBin_lt node.Addr
  obtain ⟨bucket, hbucket⟩ : ∃ b, k.buckets[k.proximityBin node.Addr]? = some b :=
    ⟨_, List.getElem?_eq_getElem hbin⟩
  unfold Kademlia.On
  dsimp only
  -- the record `findOrCreate` adds before the callback, which every outcome keeps
  set d := if node.Addr ∈ k.dbIndex then k.dbIndex else node.Addr :: k.dbIndex with hd
  have hrec : node.Addr ∈ d ∧ ∀ a ∈ k.dbIndex, a ∈ d := by
    rw [hd]
    split_ifs with h
    · exact ⟨h, fun _ ha => ha⟩
    · exact ⟨List.mem_cons_self, fun _ ha => List.mem_cons_of_mem _ ha⟩
  have hinv₁ : { k with dbIndex := d }.Inv := hinv.frame rfl rfl rfl rfl
  cases cb with
  | error err => exact ⟨hinv₁, rfl, hrec⟩
  | ok u =>
    simp only [hbucket]
    by_cases hlen : bucket.length < k.params.BucketSize
    · -- the bucket has room: the node joins it and the bin is adjusted
      have hb : (bucket ++ [node]).length =
          (k.buckets.getD (k.proximityBin node.Addr) []).length + 1 := by
        simp [List.getD_eq_getElem?_getD, hbucket]
      obtain ⟨k', hk', hprox⟩ := setProxLimit_on (k := { k with dbIndex := d }) hP hinv.prox hbin hb
      dsimp only at hk'
      simp only [if_pos hlen, hk']
      obtain ⟨limit, size, rfl⟩ := setProxLimit_some hk'
      exact ⟨⟨by simp [hinv.length_buckets], hprox⟩, rfl, hrec⟩
    · simp only [if_neg hlen]
      cases hscan : idleScan now k.params.MaxIdleInterval 0 none bucket with
      | none => exact ⟨hinv₁, rfl, hrec⟩
      | some pos =>
        -- the idle peer is replaced: no bucket changes size, so no adjustment
        refine ⟨⟨by simp [hinv.length_buckets], ?_⟩, rfl, hrec⟩
        dsimp only
        rw [map_length_set_same hbucket List.length_set]
        exact hinv.prox

/-- `Off` of an address with a record settles in a table that keeps the
invariant, the parameters and the records. -/
theorem off_settles (hinv : k.Inv) (hrec : node.Addr ∈ k.dbIndex) :
    Settles (fun k' => k'.Inv ∧ k'.params = k.params ∧ k'.dbIndex = k.dbIndex) (k.Off node) := by
  have hbin := hinv.proximityBin_lt node.Addr
  unfold Kademlia.Off
  dsimp only
  set r := k.proximityBin node.Addr with hr
  obtain ⟨bucket, hbucket⟩ : ∃ b, k.buckets[r]? = some b := ⟨_, List.getElem?_eq_getElem hbin⟩
  simp only [hbucket]
  cases hi : bucket.findIdx? (fun p => node.Addr == p.Addr) with
  | none =>
    -- the peer was not in its bucket: only the count changes
    simp only [if_pos hrec]
    exact ⟨hinv.frame rfl rfl rfl rfl, rfl, rfl⟩
  | some i =>
    have hlt : i < bucket.length := (List.findIdx?_eq_some_iff_getElem.mp hi).1
    have hb : (bucket.eraseIdx i).length + 1 = (k.buckets.getD r []).length := by
      simp only [List.getD_eq_getElem?_getD, hbucket, Option.getD_some,
        List.length_eraseIdx_of_lt hlt]
      omega
    obtain ⟨k₁, hk₁, hprox⟩ := setProxLimit_off hinv.prox hbin hb
    obtain ⟨limit, size, rfl⟩ := setProxLimit_some hk₁
    simp only [hk₁, if_pos hrec]
    exact ⟨⟨by simp [hinv.length_buckets], hprox⟩, rfl, rfl⟩

end Calls

/-- The run lemma: from a table that keeps the invariant and holds a record
of every address in `seen`, a run whose `Off`s are of addresses in `seen` or
given to an earlier `On` never panics and ends in a table that keeps the
invariant. -/
theorem run_inv {params : KadParams} (hP : 0 < params.ProxBinSize) (calls : List Call) :
    ∀ (seen : List Address) (k : Kademlia), OffAfterOn seen calls → k.Inv →
      k.params = params → (∀ a ∈ seen, a ∈ k.dbIndex) →
      ∃ k', run calls k = some k' ∧ k'.Inv ∧ k'.params = params := by
  induction calls with
  | nil =>
    intro seen k _ hinv hparams _
    exact ⟨k, rfl, hinv, hparams⟩
  | cons c cs ih =>
    intro seen k hcalls hinv hparams hseen
    cases c with
    | On node now cb =>
      obtain ⟨k₁, ⟨hinv₁, hparams₁, hnode, hsub⟩, hrun⟩ :=
        run_cons_of_settles (.On node now cb) cs (on_settles (hparams ▸ hP) hinv now cb)
      rw [hrun]
      apply ih (node.Addr :: seen) k₁ hcalls hinv₁ (hparams₁.trans hparams)
      intro a ha
      rcases List.mem_cons.mp ha with rfl | ha
      · exact hnode
      · exact hsub a (hseen a ha)
    | Off node =>
      obtain ⟨hmem, hcalls⟩ := hcalls
      obtain ⟨k₁, ⟨hinv₁, hparams₁, hdb⟩, hrun⟩ :=
        run_cons_of_settles (.Off node) cs (off_settles hinv (hseen _ hmem))
      rw [hrun]
      apply ih seen k₁ hcalls hinv₁ (hparams₁.trans hparams)
      intro a ha
      rw [hdb]
      exact hseen a ha

/-- The invariant is what the test's `proxCheck` checks. -/
theorem Kademlia.Inv.proxCheck_eq_true {k : Kademlia} (h : k.Inv) : k.proxCheck = true := by
  have hsum : ((k.buckets.drop k.proxLimit).map List.length).sum = k.proxSize := by
    rw [List.map_drop, h.prox.size_eq]
  have hbelow : ∀ b ∈ k.buckets.take k.proxLimit, b.length ≠ 0 := by
    intro b hb
    have := h.prox.below b.length (by rw [← List.map_take]; exact List.mem_map_of_mem hb)
    omega
  have hmin := h.prox.minimal
  have hfull := h.prox.full
  rw [getD_map_length] at hmin
  unfold Kademlia.proxCheck
  simp only [hsum, List.all_eq_true, bne_iff_ne, ne_eq, Bool.and_eq_true, decide_eq_true_eq,
    Bool.or_eq_true, beq_self_eq_true, Bool.true_and, Bool.not_eq_true', Bool.and_eq_false_iff,
    decide_eq_false_iff_not]
  refine ⟨hbelow, .inr ⟨?_, ?_⟩⟩ <;> omega

/-- From a fresh table with `ProxBinSize ≥ 1`, every run of `On` and `Off`
calls whose `Off`s are of addresses given to an earlier `On` never panics,
and leaves a table whose bin keeps the invariant and passes `proxCheck`. -/
theorem run_keeps_proxLimit (addr : Address) (params : KadParams) (hP : 1 ≤ params.ProxBinSize)
    (calls : List Call) (hcalls : OffAfterOn [] calls) :
    ∃ k, run calls (New addr params) = some k ∧ k.params = params ∧ k.Inv ∧
      k.proxLimit ≤ params.MaxProx ∧ k.proxCheck = true := by
  obtain ⟨k, hrun, hinv, hparams⟩ :=
    run_inv hP calls [] (New addr params) hcalls (inv_New addr params) rfl (by simp)
  have hlimit : k.proxLimit ≤ params.MaxProx := by
    have := hinv.prox.limit_lt
    rw [List.length_map, hinv.length_buckets, hparams] at this
    omega
  exact ⟨k, hrun, hparams, hinv, hlimit, hinv.proxCheck_eq_true⟩

/-- The parameters of `TestProxAdjust`, two peers taken on and one taken off. -/
theorem run_keeps_proxLimit_testProxAdjust :
    1 ≤ (⟨7, 2, 4, 42000⟩ : KadParams).ProxBinSize ∧
      OffAfterOn [] [.On ⟨[1], 0⟩ 0 (.ok ()), .On ⟨[2], 0⟩ 0 (.ok ()), .Off ⟨[1], 0⟩] ∧
      ∃ k, run [.On ⟨[1], 0⟩ 0 (.ok ()), .On ⟨[2], 0⟩ 0 (.ok ()), .Off ⟨[1], 0⟩]
          (New [0] ⟨7, 2, 4, 42000⟩) = some k ∧ k.params = ⟨7, 2, 4, 42000⟩ ∧ k.Inv ∧
        k.proxLimit ≤ 7 ∧ k.proxCheck = true :=
  ⟨by decide, by simp [OffAfterOn],
    run_keeps_proxLimit [0] ⟨7, 2, 4, 42000⟩ (by decide) _ (by simp [OffAfterOn])⟩

end GoEthereum.Swarm
