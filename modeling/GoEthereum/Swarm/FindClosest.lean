import GoEthereum.Swarm.Kademlia
import GoEthereum.Data.XorDistance

/-!
`Kademlia.FindClosest` (`swarm/network/kademlia/kademlia.go`): the peers of
the table nearest a target, gathered bucket by bucket into a bounded list
that `nodesByDistance.push` keeps nearest first. The scan goes up from the
target's bucket `po` to `MaxProx`, then down from `po - 1`, and stops after
a whole bucket once it has `max` peers. A bucket is a class of distances: a
peer in a bucket below `po` is farther than every peer in a higher one
(`distance_lt_of_bins`), so the buckets left out hold only farther peers.

For a table built by `On` with distinct addresses, `FindClosest(target, N)`
with `N ≥ 1` returns `min N` distinct peers sorted by `ProxCmp`, and no peer
left out is nearer than a returned one (`find_closest_nearest`).
-/

namespace GoEthereum.Swarm

open BigEndian Nearest XorDistance

/-- `Address.ProxCmp`: `1` if `a` is farther from `target` than `b`, `-1` if
it is nearer, `0` if they are as near. -/
def ProxCmp (target a b : Address) : Int := XorDistance.cmp target a b

/-! ### Proximity orders as bits of the distance -/

/-- The bit that `firstSetBit` finds is set, and no bit above it. -/
theorem firstSetBit_bits : ∀ z : UInt8, z.toNat < 2 ^ (8 - firstSetBit z) ∧
    (firstSetBit z < 8 → z.toNat.testBit (7 - firstSetBit z) = true) := by
  decide +kernel

/-- Two addresses of proximity order `p` agree on their first `p` bits and
differ on the next: their xor is below `2 ^ (8n - p)`, with the bit
`8n - 1 - p` set. -/
theorem proximity_bits (a b : Address) (hlen : a.length = b.length) :
    proximity a b ≤ 8 * a.length ∧
      value a ^^^ value b < 2 ^ (8 * a.length - proximity a b) ∧
      (proximity a b < 8 * a.length →
        (value a ^^^ value b).testBit (8 * a.length - 1 - proximity a b) = true) := by
  induction a generalizing b with
  | nil =>
    rw [List.length_nil, eq_comm, List.length_eq_zero_iff] at hlen
    subst hlen
    simp [proximity]
  | cons x a ih =>
    obtain ⟨y, b, rfl⟩ := List.exists_cons_of_length_eq_add_one hlen.symm
    have hlen' : a.length = b.length := by simpa using hlen
    have hrest : value a ^^^ value b < 2 ^ (8 * a.length) :=
      Nat.xor_lt_two_pow (pow_256 a.length ▸ value_lt a)
        (hlen' ▸ pow_256 b.length ▸ value_lt b)
    obtain ⟨hz, hzbit⟩ := firstSetBit_bits (x ^^^ y)
    rw [value_cons_xor x y hlen', pow_256, Nat.mul_comm (x ^^^ y).toNat, List.length_cons,
      proximity]
    by_cases hf : firstSetBit (x ^^^ y) < 8
    · -- the first bytes differ: the first set bit of their xor is the order
      rw [if_pos hf]
      have hpow : 2 ^ (8 * (a.length + 1) - firstSetBit (x ^^^ y)) =
          2 ^ (8 * a.length) * 2 ^ (8 - firstSetBit (x ^^^ y)) := by
        rw [← pow_add]
        congr 1
        omega
      refine ⟨by omega, ?_, fun _ => ?_⟩
      · rw [hpow]
        have hmul := Nat.mul_le_mul_left (2 ^ (8 * a.length)) (Nat.succ_le_of_lt hz)
        rw [Nat.mul_succ] at hmul
        omega
      · rw [Nat.testBit_two_pow_mul_add _ hrest, if_neg (by omega)]
        have hj : 8 * (a.length + 1) - 1 - firstSetBit (x ^^^ y) - 8 * a.length =
            7 - firstSetBit (x ^^^ y) := by omega
        rw [hj]
        exact hzbit hf
    · -- the first bytes agree: the order is eight more than the rest's
      rw [if_neg hf]
      have hzero : (x ^^^ y).toNat = 0 := by
        have : 8 - firstSetBit (x ^^^ y) = 0 := by omega
        rw [this, pow_zero] at hz
        omega
      obtain ⟨hle, hlt, hbit⟩ := ih b hlen'
      rw [hzero, mul_zero, zero_add]
      refine ⟨by omega, ?_, fun h => ?_⟩
      · have he : 8 * (a.length + 1) - (8 + proximity a b) = 8 * a.length - proximity a b := by
          omega
        rw [he]
        exact hlt
      · have he : 8 * (a.length + 1) - 1 - (8 + proximity a b) =
            8 * a.length - 1 - proximity a b := by omega
        rw [he]
        exact hbit (by omega)

/-- The buckets are classes of distance: seen from `s`, a peer `p` of order
`b` below both the order of `q` and the target's is farther from the target
than `q`. Their xors with `s` part at bit `8n - 1 - b`, which `p`'s has set
and the other two have not. -/
theorem distance_lt_of_proximity {s p q t : Address} (hp : p.length = s.length)
    (hq : q.length = s.length) (ht : t.length = s.length) {b : Nat}
    (hpb : proximity s p = b) (hqb : b < proximity s q) (htb : b < proximity s t) :
    distance t q < distance t p := by
  obtain ⟨-, -, hpbit⟩ := proximity_bits s p hp.symm
  obtain ⟨-, hqlt, -⟩ := proximity_bits s q hq.symm
  obtain ⟨htle, htlt, -⟩ := proximity_bits s t ht.symm
  rw [hpb] at hpbit
  have hqk : value s ^^^ value q < 2 ^ (8 * s.length - 1 - b) :=
    lt_of_lt_of_le hqlt (Nat.pow_le_pow_right two_pos (by omega))
  have htk : value s ^^^ value t < 2 ^ (8 * s.length - 1 - b) :=
    lt_of_lt_of_le htlt (Nat.pow_le_pow_right two_pos (by omega))
  have hpk : (value s ^^^ value p ^^^ (value s ^^^ value t)).testBit (8 * s.length - 1 - b) :=
    by rw [Nat.testBit_xor, hpbit (by omega), Nat.testBit_lt_two_pow htk]; rfl
  calc distance t q = value s ^^^ value q ^^^ (value s ^^^ value t) := by
        rw [xor_xor_cancel, distance]
    _ < 2 ^ (8 * s.length - 1 - b) := Nat.xor_lt_two_pow hqk htk
    _ ≤ value s ^^^ value p ^^^ (value s ^^^ value t) := Nat.ge_two_pow_of_testBit hpk
    _ = distance t p := by rw [xor_xor_cancel, distance]

theorem Kademlia.proximityBin_le_proximity (k : Kademlia) (a : Address) :
    k.proximityBin a ≤ proximity k.addr a := by
  unfold Kademlia.proximityBin
  dsimp only
  split_ifs <;> omega

/-- Below `MaxProx` the bucket is the proximity order itself. -/
theorem Kademlia.proximity_eq_of_proximityBin_lt {k : Kademlia} {a : Address}
    (h : k.proximityBin a < k.params.MaxProx) : proximity k.addr a = k.proximityBin a := by
  unfold Kademlia.proximityBin at h ⊢
  dsimp only at h ⊢
  split_ifs at h ⊢ <;> omega

/-- A peer in a bucket below another peer's and below the target's is
farther from the target than that other peer. -/
theorem distance_lt_of_bins (k : Kademlia) {p q t : Address} (hp : p.length = k.addr.length)
    (hq : q.length = k.addr.length) (ht : t.length = k.addr.length)
    (hpq : k.proximityBin p < k.proximityBin q) (hpt : k.proximityBin p < k.proximityBin t) :
    distance t q < distance t p := by
  have hprox : proximity k.addr p = k.proximityBin p :=
    Kademlia.proximity_eq_of_proximityBin_lt (lt_of_lt_of_le hpq (k.proximityBin_le q))
  exact distance_lt_of_proximity hp hq ht hprox
    (lt_of_lt_of_le hpq (k.proximityBin_le_proximity q))
    (lt_of_lt_of_le hpt (k.proximityBin_le_proximity t))

/-! ### `FindClosest` -/

/-- `maxPeers`, the bound of the result when `FindClosest` is asked for `0`
peers. -/
def maxPeers : Nat := 100

/-- `nodesByDistance.push(node, max)` on the nodes `nodes` of a
`nodesByDistance` for `target`: the place of `node` is the first entry at
least as far from the target. -/
def nodesByDistance.push (target : Address) (nodes : List Node) (node : Node) (max : Nat) :
    List Node :=
  Nearest.push (fun node e => decide (ProxCmp target e.Addr node.Addr ≥ 0)) nodes node max

/-- The loop of `FindClosest` from bucket `index`, with `n` peers pushed into
`r` so far; `ascending` is `step = 1`, and `step = -1` otherwise. A bucket
read out of range is the slice's panic. -/
def Kademlia.findClosestLoop (self : Kademlia) (target : Address) (max min limit : Nat)
    (index : Int) (ascending : Bool) (n : Nat) (r : List Node) :
    Except KadError (List Node) :=
  if index < 0 then .ok r
  else
    match h : self.buckets[index.toNat]? with
    | none => .error (.panic "index out of range")
    | some bucket =>
      let r := bucket.foldl (fun r p => nodesByDistance.push target r p limit) r
      let n := n + bucket.length
      -- terminate if index reached the bottom or enough peers > min
      if n ≥ min ∧ (ascending = false ∨ max = 0) then .ok r
      -- reach top most non-empty PO bucket, turn around
      else if index = self.params.MaxProx then
        self.findClosestLoop target max min limit (self.proximityBin target - 1) false n r
      else
        self.findClosestLoop target max min limit (if ascending then index + 1 else index - 1)
          ascending n r
termination_by
  if ascending then (self.buckets.length - index).toNat + self.params.MaxProx + 2
  else (index + 1).toNat
decreasing_by
  · have hpo := self.proximityBin_le target
    cases ascending <;> simp only [Bool.false_eq_true, if_false, if_true] <;> omega
  · have hlt : index.toNat < self.buckets.length := (List.getElem?_eq_some_iff.mp h).1
    cases ascending <;> simp only [Bool.false_eq_true, if_false, if_true, dite_eq_ite] <;> omega

/-- `Kademlia.FindClosest(target, max)`. -/
def Kademlia.FindClosest (self : Kademlia) (target : Address) (max : Nat) :
    Except KadError (List Node) :=
  let po := self.proximityBin target
  -- if max is set to 0, just want a full bucket, dynamic number
  let min := if max = 0 then 1 else max
  let limit := if max = 0 then maxPeers else max
  self.findClosestLoop target max min limit po true 0 []

/-- Pushing a whole bucket, as `FindClosest` does, keeps the result the
nearest of the peers pushed. -/
theorem closest_push_bucket {target : Address} {max : Nat} {L r b : List Node}
    (hL : ∀ p ∈ L, p.Addr.length = target.length) (hb : ∀ p ∈ b, p.Addr.length = target.length)
    (h : Closest (fun p => distance target p.Addr) max L r) :
    Closest (fun p => distance target p.Addr) max (L ++ b)
      (b.foldl (fun r p => nodesByDistance.push target r p max) r) :=
  Closest.foldl (fun x hx => splits_cmp_nonneg Node.Addr target x hx) b hb hL h

/-! ### Tables built by `On` -/

/-- What a table built by `On` calls holds: a bucket for each order up to
`MaxProx`, every peer in the bucket of its address, and distinct addresses,
each given to one of the calls (`seen`). -/
structure Kademlia.Filed (k : Kademlia) (seen : List Address) : Prop where
  length_buckets : k.buckets.length = k.params.MaxProx + 1
  bin : ∀ i, ∀ b ∈ k.buckets[i]?, ∀ p ∈ b, k.proximityBin p.Addr = i
  seen : ∀ p ∈ k.buckets.flatten, p.Addr ∈ seen
  nodup : (k.buckets.flatten.map Node.Addr).Nodup

theorem filed_New (addr : Address) (params : KadParams) : (New addr params).Filed [] where
  length_buckets := by simp [New]
  bin i b hb p hp := by
    simp only [New, List.getElem?_replicate, Option.mem_def, Option.ite_none_right_eq_some,
      Option.some.injEq] at hb
    rw [← hb.2] at hp
    cases hp
  seen := by simp [New]
  nodup := by simp [New]

section Filed

variable {k k' : Kademlia} {seen : List Address}

theorem Kademlia.Filed.mono (h : k.Filed seen) {seen' : List Address}
    (hs : ∀ a ∈ seen, a ∈ seen') : k.Filed seen' where
  length_buckets := h.length_buckets
  bin := h.bin
  seen p hp := hs _ (h.seen p hp)
  nodup := h.nodup

/-- The invariant reads only the address, the parameters and the buckets. -/
theorem Kademlia.Filed.frame (h : k.Filed seen) (haddr : k'.addr = k.addr)
    (hparams : k'.params = k.params) (hbuckets : k'.buckets = k.buckets) : k'.Filed seen := by
  have hbin : k'.proximityBin = k.proximityBin := by
    funext a
    simp only [Kademlia.proximityBin, haddr, hparams]
  exact ⟨hbuckets ▸ hparams ▸ h.length_buckets, hbuckets ▸ hbin ▸ h.bin, hbuckets ▸ h.seen,
    hbuckets ▸ h.nodup⟩

theorem flatten_set_subperm {l : List (List Node)} {i : Nat} {b b' : List Node} {x : Node}
    (hb : l[i]? = some b) (hsub : b'.Subperm (x :: b)) :
    (l.set i b').flatten.Subperm (x :: l.flatten) := by
  induction l generalizing i with
  | nil => simp at hb
  | cons c l ih =>
    cases i with
    | zero =>
      simp only [List.getElem?_cons_zero, Option.some.injEq] at hb
      subst hb
      simp only [List.set_cons_zero, List.flatten_cons]
      exact hsub.append (List.Subperm.refl _)
    | succ i =>
      simp only [List.getElem?_cons_succ] at hb
      simp only [List.set_cons_succ, List.flatten_cons]
      exact ((List.subperm_append_left c).mpr (ih hb)).trans List.perm_middle.subperm

theorem nodup_map_of_subperm {l₁ l₂ : List Node} (h : l₁.Subperm l₂)
    (hd : (l₂.map Node.Addr).Nodup) : (l₁.map Node.Addr).Nodup := by
  obtain ⟨l, hperm, hsub⟩ := h
  exact (hperm.map Node.Addr).nodup ((hsub.map Node.Addr).nodup hd)

/-- Putting a new peer into its bucket, in place of the bucket `b` or of one
of its peers, keeps the invariant. -/
theorem Kademlia.Filed.set (h : k.Filed seen) {i : Nat} {b b' : List Node} {node : Node}
    (hb : k.buckets[i]? = some b) (hi : k.proximityBin node.Addr = i) (hnode : node.Addr ∉ seen)
    (hsub : b'.Subperm (node :: b)) (haddr : k'.addr = k.addr) (hparams : k'.params = k.params)
    (hbuckets : k'.buckets = k.buckets.set i b') : k'.Filed (node.Addr :: seen) := by
  have hbin : k'.proximityBin = k.proximityBin := by
    funext a
    simp only [Kademlia.proximityBin, haddr, hparams]
  have hflat : k'.buckets.flatten.Subperm (node :: k.buckets.flatten) :=
    hbuckets ▸ flatten_set_subperm hb hsub
  refine ⟨by rw [hbuckets, List.length_set, hparams, h.length_buckets], ?_, ?_, ?_⟩
  · -- the new bucket holds peers of the old one and the new peer
    intro j c hc p hp
    rw [hbin]
    rw [hbuckets, List.getElem?_set, Option.mem_def] at hc
    split_ifs at hc with hij
    · rw [Option.some.injEq] at hc
      subst hc hij
      rcases List.mem_cons.mp (hsub.subset hp) with rfl | hp
      · exact hi
      · exact h.bin i b hb p hp
    · exact h.bin j c hc p hp
  · intro p hp
    rcases List.mem_cons.mp (hflat.subset hp) with rfl | hp
    · exact List.mem_cons_self
    · exact List.mem_cons_of_mem _ (h.seen p hp)
  · apply nodup_map_of_subperm hflat
    rw [List.map_cons, List.nodup_cons]
    refine ⟨fun hmem => hnode ?_, h.nodup⟩
    obtain ⟨p, hp, hpa⟩ := List.mem_map.mp hmem
    exact hpa ▸ h.seen p hp

theorem set_subperm_cons (b : List Node) (pos : Nat) (node : Node) :
    (b.set pos node).Subperm (node :: b) := by
  by_cases hpos : pos < b.length
  · exact (List.set_perm_cons_eraseIdx hpos node).subperm.trans
      ((List.subperm_cons node).mpr (List.eraseIdx_sublist b pos).subperm)
  · rw [List.set_eq_of_length_le (by omega)]
    exact List.subperm_cons_self

/-- Where a call leaves the table, whether it returns or fails. -/
def Lands (Q : Kademlia → Prop) : EStateM.Result KadError Kademlia Unit → Prop
  | .ok () k => Q k
  | .error _ k => Q k

/-- `On` of a new address leaves a table that keeps the invariant, with the
address among those seen; it changes neither the table's address nor its
parameters. -/
theorem on_lands {node : Node} (h : k.Filed seen) (hnode : node.Addr ∉ seen) (now : Int)
    (cb : Except String Unit) :
    Lands (fun k' => k'.addr = k.addr ∧ k'.params = k.params ∧ k'.Filed (node.Addr :: seen))
      (k.On node now cb) := by
  unfold Kademlia.On
  dsimp only
  -- the record that `findOrCreate` adds changes no bucket
  set db := if node.Addr ∈ k.dbIndex then k.dbIndex else node.Addr :: k.dbIndex
  have hkeep : ({ k with dbIndex := db } : Kademlia).addr = k.addr ∧
      ({ k with dbIndex := db } : Kademlia).params = k.params ∧
      ({ k with dbIndex := db } : Kademlia).Filed (node.Addr :: seen) :=
    ⟨rfl, rfl, (h.mono fun _ ha => List.mem_cons_of_mem _ ha).frame rfl rfl rfl⟩
  cases cb with
  | error err => exact hkeep
  | ok u =>
    cases hbucket : k.buckets[k.proximityBin node.Addr]? with
    | none => exact hkeep
    | some bucket =>
      dsimp only
      split_ifs with hlen
      · -- room in the bucket: the peer is appended
        split
        · exact hkeep
        · rename_i k₁ hset
          obtain ⟨limit, size, rfl⟩ := setProxLimit_some hset
          exact ⟨rfl, rfl, h.set hbucket rfl hnode (List.perm_append_singleton node bucket).subperm
            rfl rfl rfl⟩
      · -- a full bucket: the peer idle for longest is replaced, if any
        cases idleScan now k.params.MaxIdleInterval 0 none bucket with
        | none => exact hkeep
        | some pos => exact ⟨rfl, rfl, h.set hbucket rfl hnode (set_subperm_cons bucket pos node)
            rfl rfl rfl⟩

/-- A call that lands in a table where `Q` holds lets a run that does not
panic go on from there. -/
theorem run_cons_of_lands {Q : Kademlia → Prop} (c : Call) (cs : List Call) {k k' : Kademlia}
    (h : Lands Q (c.exec k)) (hrun : run (c :: cs) k = some k') :
    ∃ k₁, Q k₁ ∧ run cs k₁ = some k' := by
  rw [run] at hrun
  rcases hc : c.exec k with ⟨⟨⟩, k₁⟩ | ⟨e, k₁⟩
  · rw [hc] at h hrun
    exact ⟨k₁, h, hrun⟩
  · rw [hc] at h hrun
    cases e with
    | panic _ => cases hrun
    | callback _ _ => exact ⟨k₁, h, hrun⟩
    | bucketFull => exact ⟨k₁, h, hrun⟩

/-- The `On` calls of a run, each with its time and what its callback
returns. -/
def onCalls (ons : List (Node × Int × Except String Unit)) : List Call :=
  ons.map fun o => .On o.1 o.2.1 o.2.2

/-- The run lemma: a run of `On` calls of new, distinct addresses that does not
panic keeps the invariant, with the addresses it was given among those seen. -/
theorem run_onCalls_filed (ons : List (Node × Int × Except String Unit)) :
    ∀ (seen : List Address) (k k' : Kademlia), k.Filed seen →
      (ons.map fun o => o.1.Addr).Nodup → (∀ o ∈ ons, o.1.Addr ∉ seen) →
      run (onCalls ons) k = some k' →
      k'.addr = k.addr ∧ k'.params = k.params ∧ k'.Filed ((ons.map fun o => o.1.Addr) ++ seen) := by
  induction ons with
  | nil =>
    intro seen k k' h _ _ hrun
    cases hrun
    exact ⟨rfl, rfl, h⟩
  | cons o ons ih =>
    intro seen k k' h hnodup hfresh hrun
    rw [List.map_cons, List.nodup_cons] at hnodup
    obtain ⟨k₁, ⟨haddr₁, hparams₁, h₁⟩, hrun₁⟩ := run_cons_of_lands _ _
      (on_lands h (hfresh o List.mem_cons_self) o.2.1 o.2.2) hrun
    have hfresh₁ : ∀ o' ∈ ons, o'.1.Addr ∉ o.1.Addr :: seen := by
      intro o' ho' hmem
      rcases List.mem_cons.mp hmem with heq | hmem
      · exact hnodup.1 (heq ▸ List.mem_map_of_mem ho')
      · exact hfresh o' (List.mem_cons_of_mem o ho') hmem
    obtain ⟨haddr, hparams, h'⟩ := ih (o.1.Addr :: seen) k₁ k' h₁ hnodup.2 hfresh₁ hrun₁
    refine ⟨haddr.trans haddr₁, hparams.trans hparams₁, h'.mono fun a ha => ?_⟩
    simp only [List.mem_append, List.mem_cons, List.map_cons] at ha ⊢
    tauto

end Filed

/-- A peer is in the buckets from `lo` on exactly when its bucket is. -/
theorem Kademlia.Filed.mem_drop_iff {k : Kademlia} {seen : List Address} (h : k.Filed seen)
    {lo : Nat} {y : Node} (hy : y ∈ k.buckets.flatten) :
    y ∈ (k.buckets.drop lo).flatten ↔ lo ≤ k.proximityBin y.Addr := by
  constructor
  · intro hyd
    obtain ⟨b, hb, hyb⟩ := List.mem_flatten.mp hyd
    obtain ⟨j, hj⟩ := List.mem_iff_getElem?.mp hb
    rw [List.getElem?_drop] at hj
    rw [h.bin (lo + j) b hj y hyb]
    omega
  · intro hle
    obtain ⟨b, hb, hyb⟩ := List.mem_flatten.mp hy
    obtain ⟨i, hi⟩ := List.mem_iff_getElem?.mp hb
    have hbin := h.bin i b hi y hyb
    refine List.mem_flatten.mpr ⟨b, List.mem_iff_getElem?.mpr ⟨i - lo, ?_⟩, hyb⟩
    rw [List.getElem?_drop, Nat.add_sub_cancel' (by omega)]
    exact hi

/-! ### The scan -/

theorem flatten_drop_take_succ {l : List (List Node)} {lo i : Nat} {b : List Node}
    (hlo : lo ≤ i) (hb : l[i]? = some b) :
    ((l.take (i + 1)).drop lo).flatten = ((l.take i).drop lo).flatten ++ b := by
  have hi : i < l.length := (List.getElem?_eq_some_iff.mp hb).1
  rw [List.take_add_one, hb, Option.toList_some,
    List.drop_append_of_le_length (by rw [List.length_take]; omega), List.flatten_append,
    List.flatten_singleton]

theorem flatten_drop_perm {l : List (List Node)} {i : Nat} {b : List Node}
    (hb : l[i]? = some b) : (l.drop i).flatten.Perm ((l.drop (i + 1)).flatten ++ b) := by
  obtain ⟨hi, rfl⟩ := List.getElem?_eq_some_iff.mp hb
  rw [List.drop_eq_getElem_cons hi, List.flatten_cons]
  exact List.perm_append_comm

variable (k : Kademlia) (target : Address) (max : Nat)

/-- The peers of the buckets the scan has pushed: those from `po` up to
`index` on the way up, and those from `index + 1` on, on the way down. -/
def scanned (index : Int) (ascending : Bool) : List Node :=
  if ascending then ((k.buckets.take index.toNat).drop (k.proximityBin target)).flatten
  else (k.buckets.drop (index + 1).toNat).flatten

/-- The invariant of the loop of `FindClosest`: where `index` can be, and
that `r` holds the nearest `max` of the `n` peers scanned. -/
structure ScanInv (index : Int) (ascending : Bool) (n : Nat) (r : List Node) : Prop where
  up : ascending = true → (k.proximityBin target : Int) ≤ index ∧ index ≤ k.params.MaxProx
  down : ascending = false → -1 ≤ index ∧ index < k.proximityBin target
  closest : Closest (fun p => distance target p.Addr) max (scanned k target index ascending) r
  count : n = (scanned k target index ascending).length

variable {k target max}

theorem mem_flatten_of_mem_scanned {index : Int} {ascending : Bool} {p : Node}
    (hp : p ∈ scanned k target index ascending) : p ∈ k.buckets.flatten := by
  unfold scanned at hp
  split_ifs at hp
  · obtain ⟨b, hb, hpb⟩ := List.mem_flatten.mp hp
    exact List.mem_flatten.mpr ⟨b, List.mem_of_mem_take (List.mem_of_mem_drop hb), hpb⟩
  · obtain ⟨b, hb, hpb⟩ := List.mem_flatten.mp hp
    exact List.mem_flatten.mpr ⟨b, List.mem_of_mem_drop hb, hpb⟩

theorem scanInv_up {index : Int} {n : Nat} {r : List Node}
    (hlo : (k.proximityBin target : Int) ≤ index) (hhi : index ≤ k.params.MaxProx)
    (hr : Closest (fun p => distance target p.Addr) max
      ((k.buckets.take index.toNat).drop (k.proximityBin target)).flatten r)
    (hn : n = ((k.buckets.take index.toNat).drop (k.proximityBin target)).flatten.length) :
    ScanInv k target max index true n r where
  up _ := ⟨hlo, hhi⟩
  down h := Bool.noConfusion h
  closest := hr
  count := hn

theorem scanInv_down {index : Int} {n : Nat} {r : List Node} (hlo : -1 ≤ index)
    (hhi : index < k.proximityBin target)
    (hr : Closest (fun p => distance target p.Addr) max (k.buckets.drop (index + 1).toNat).flatten r)
    (hn : n = (k.buckets.drop (index + 1).toNat).flatten.length) :
    ScanInv k target max index false n r where
  up h := Bool.noConfusion h
  down _ := ⟨hlo, hhi⟩
  closest := hr
  count := hn

section Push

variable {index : Int} {n : Nat} {r b : List Node}
  (hS : ∀ p ∈ k.buckets.flatten, p.Addr.length = target.length)
  (hb : k.buckets[index.toNat]? = some b)
include hS hb

theorem length_of_bucket (p : Node) (hp : p ∈ b) : p.Addr.length = target.length :=
  hS p (List.mem_flatten.mpr ⟨b, List.mem_of_getElem? hb, hp⟩)

/-- On the way up, pushing bucket `index` adds it to the scanned peers. -/
theorem ScanInv.push_up (h : ScanInv k target max index true n r) :
    Closest (fun p => distance target p.Addr) max
        ((k.buckets.take (index.toNat + 1)).drop (k.proximityBin target)).flatten
        (b.foldl (fun r p => nodesByDistance.push target r p max) r) ∧
      n + b.length =
        ((k.buckets.take (index.toNat + 1)).drop (k.proximityBin target)).flatten.length := by
  have hscan : scanned k target index true =
      ((k.buckets.take index.toNat).drop (k.proximityBin target)).flatten := if_pos rfl
  have hpo : k.proximityBin target ≤ index.toNat := by
    have := (h.up rfl).1
    omega
  have hL : ∀ p ∈ scanned k target index true, p.Addr.length = target.length :=
    fun p hp => hS p (mem_flatten_of_mem_scanned hp)
  rw [flatten_drop_take_succ hpo hb, List.length_append, ← hscan, ← h.count]
  exact ⟨closest_push_bucket hL (length_of_bucket hS hb) h.closest, rfl⟩

/-- On the way down, pushing bucket `index` adds it to the scanned peers. -/
theorem ScanInv.push_down (h : ScanInv k target max index false n r) (hidx : 0 ≤ index) :
    Closest (fun p => distance target p.Addr) max (k.buckets.drop index.toNat).flatten
        (b.foldl (fun r p => nodesByDistance.push target r p max) r) ∧
      n + b.length = (k.buckets.drop index.toNat).flatten.length := by
  have hscan : scanned k target index false = (k.buckets.drop (index.toNat + 1)).flatten := by
    rw [scanned, if_neg Bool.false_ne_true]
    congr 2
    omega
  have hL : ∀ p ∈ scanned k target index false, p.Addr.length = target.length :=
    fun p hp => hS p (mem_flatten_of_mem_scanned hp)
  have hperm := flatten_drop_perm hb
  rw [hperm.length_eq, List.length_append, ← hscan, ← h.count]
  refine ⟨?_, rfl⟩
  have hpush := closest_push_bucket hL (length_of_bucket hS hb) h.closest
  rw [hscan] at hpush
  exact hpush.perm hperm.symm

end Push

/-- The loop spec: from a state that keeps `ScanInv`, the scan returns the
nearest `max` of the buckets from some `lo` on, where `lo` is bucket 0 or a
bucket below the target's after which `max` peers were pushed. -/
theorem findClosestLoop_spec (hlen : k.buckets.length = k.params.MaxProx + 1)
    (hS : ∀ p ∈ k.buckets.flatten, p.Addr.length = target.length) (hmax : 0 < max)
    (index : Int) (ascending : Bool) (n : Nat) (r : List Node)
    (hinv : ScanInv k target max index ascending n r) :
    ∃ lo r', k.findClosestLoop target max max max index ascending n r = .ok r' ∧
      Closest (fun p => distance target p.Addr) max (k.buckets.drop lo).flatten r' ∧
      (lo = 0 ∨ lo < k.proximityBin target ∧ max ≤ (k.buckets.drop lo).flatten.length) := by
  have hpo := k.proximityBin_le target
  fun_induction k.findClosestLoop target max max max index ascending n r with
  | case1 index ascending n r hneg =>
    -- below bucket 0: every bucket was scanned
    cases ascending with
    | true => have := (hinv.up rfl).1; omega
    | false =>
      have hidx : (index + 1).toNat = 0 := by have := (hinv.down rfl).1; omega
      refine ⟨0, r, rfl, ?_, .inl rfl⟩
      have hr := hinv.closest
      rw [scanned, if_neg Bool.false_ne_true, hidx] at hr
      exact hr
  | case2 index ascending n r hneg hnone =>
    have hlt : index.toNat < k.buckets.length := by
      cases ascending with
      | true => have := (hinv.up rfl).2; omega
      | false => have := (hinv.down rfl).2; omega
    rw [List.getElem?_eq_none_iff] at hnone
    omega
  | case3 index ascending n r hneg b hb r' n' hstop =>
    -- the stop comes on the way down, after the bucket `index`
    obtain ⟨hn', hdown | hzero⟩ := hstop
    · subst hdown
      obtain ⟨hr', hcount⟩ := hinv.push_down hS hb (by omega)
      have hlt := (hinv.down rfl).2
      exact ⟨index.toNat, r', rfl, hr', .inr ⟨by omega, by omega⟩⟩
    · omega
  | case4 ascending n r b r' n' hgo hneg hb ih =>
    -- at `MaxProx` the scan turns around to `po - 1`
    cases ascending with
    | false => have := (hinv.down rfl).2; omega
    | true =>
      obtain ⟨hr', hcount⟩ := hinv.push_up hS hb
      have hidx : ((k.proximityBin target : Int) - 1 + 1).toNat = k.proximityBin target := by omega
      have htake : (k.params.MaxProx : Int).toNat + 1 = k.buckets.length := by omega
      rw [htake, List.take_length] at hr' hcount
      apply ih
      apply scanInv_down (by omega) (by omega)
      · rw [hidx]
        exact hr'
      · rw [hidx]
        exact hcount
  | case5 index ascending n r hneg b hb r' n' hgo hmaxprox ih =>
    cases ascending with
    | true =>
      -- one bucket up
      simp only [dite_eq_ite, if_true] at ih
      obtain ⟨hr', hcount⟩ := hinv.push_up hS hb
      have hidx : (index + 1).toNat = index.toNat + 1 := by omega
      have hup := hinv.up rfl
      apply ih
      apply scanInv_up (by omega) (by omega)
      · rw [hidx]
        exact hr'
      · rw [hidx]
        exact hcount
    | false =>
      -- one bucket down
      simp only [dite_eq_ite, Bool.false_eq_true, if_false] at ih
      obtain ⟨hr', hcount⟩ := hinv.push_down hS hb (by omega)
      have hidx : (index - 1 + 1).toNat = index.toNat := by omega
      have hdown := hinv.down rfl
      apply ih
      apply scanInv_down (by omega) (by omega)
      · rw [hidx]
        exact hr'
      · rw [hidx]
        exact hcount

/-- `FindClosest` returns the nearest peers: for a table built by `On` calls
of distinct addresses, `FindClosest(target, N)` with `N ≥ 1` returns
`min N` of the table's peers, with distinct addresses, sorted by `ProxCmp`,
and no peer of the table left out of it is nearer the target than a returned
one. -/
theorem find_closest_nearest (addr : Address) (params : KadParams)
    (ons : List (Node × Int × Except String Unit)) (k : Kademlia) (target : Address) (N : Nat)
    (hdistinct : (ons.map fun o => o.1.Addr).Nodup)
    (hlen : ∀ o ∈ ons, o.1.Addr.length = addr.length) (htarget : target.length = addr.length)
    (hrun : run (onCalls ons) (New addr params) = some k) (hN : 1 ≤ N) :
    ∃ r, k.FindClosest target N = .ok r ∧
      r.length = min N k.buckets.flatten.length ∧
      (∀ z ∈ r, z ∈ k.buckets.flatten) ∧ (r.map Node.Addr).Nodup ∧
      r.Pairwise (fun a b => ProxCmp target a.Addr b.Addr ≤ 0) ∧
      ∀ y ∈ k.buckets.flatten, y ∉ r → ∀ z ∈ r, ProxCmp target z.Addr y.Addr ≤ 0 := by
  obtain ⟨haddr, -, hk⟩ :=
    run_onCalls_filed ons [] (New addr params) k (filed_New addr params) hdistinct (by simp) hrun
  -- every peer has an address of the target's length, given to a call
  have hS : ∀ p ∈ k.buckets.flatten, p.Addr.length = target.length := by
    intro p hp
    have hseen := hk.seen p hp
    rw [List.append_nil] at hseen
    obtain ⟨o, ho, hpo⟩ := List.mem_map.mp hseen
    rw [← hpo, hlen o ho, htarget]
  have hself : ∀ a : Address, a.length = target.length → a.length = k.addr.length := by
    intro a ha
    rw [ha, htarget, haddr]
    rfl
  have hinv₀ : ScanInv k target N (k.proximityBin target) true 0 [] :=
    scanInv_up le_rfl (by have := k.proximityBin_le target; omega) (by simpa using closest_nil _ N)
      (by simp)
  obtain ⟨lo, r, hloop, hr, hlo⟩ :=
    findClosestLoop_spec hk.length_buckets hS (by omega) _ _ _ _ hinv₀
  have hfind : k.FindClosest target N = .ok r := by
    rw [Kademlia.FindClosest, if_neg (by omega), if_neg (by omega)]
    exact hloop
  have hsub : r.Subperm k.buckets.flatten :=
    hr.subperm.trans (List.drop_sublist lo k.buckets).flatten.subperm
  have hrS : ∀ z ∈ r, z.Addr.length = target.length := fun z hz => hS z (hsub.subset hz)
  refine ⟨r, hfind, ?_, fun z hz => hsub.subset hz, nodup_map_of_subperm hsub hk.nodup, ?_, ?_⟩
  · -- all the peers, or `N` of the peers from bucket `lo` on
    rw [hr.length_eq]
    rcases hlo with rfl | ⟨-, hNle⟩
    · rw [List.drop_zero]
    · have hle := ((List.drop_sublist lo k.buckets).flatten).length_le
      omega
  · exact hr.sorted.imp_of_mem fun ha hb hab =>
      (cmp_nonpos_iff (hrS _ ha) (hrS _ hb)).mpr hab
  · intro y hy hyr z hz
    rw [ProxCmp, cmp_nonpos_iff (hrS z hz) (hS y hy)]
    have hzL := hr.subperm.subset hz
    by_cases hyL : y ∈ (k.buckets.drop lo).flatten
    · exact hr.le_of_not_mem hyL hyr hz
    · -- a peer the scan did not reach is in a bucket below all it reached
      rcases hlo with rfl | ⟨hlt, -⟩
      · rw [List.drop_zero] at hyL
        exact absurd hy hyL
      · have hy' : k.proximityBin y.Addr < lo := not_le.mp (mt (hk.mem_drop_iff hy).mpr hyL)
        have hz' : lo ≤ k.proximityBin z.Addr := (hk.mem_drop_iff (hsub.subset hz)).mp hzL
        exact (distance_lt_of_bins k (hself _ (hS y hy)) (hself _ (hrS z hz)) (hself _ rfl)
          (by omega) (by omega)).le

/-- Three peers around `[0]`, and the two of them nearest `[64]`. -/
theorem find_closest_nearest_three :
    ∃ k, run (onCalls [(⟨[128], 0⟩, 0, .ok ()), (⟨[1], 0⟩, 0, .ok ()), (⟨[65], 0⟩, 0, .ok ())])
        (New [0] ⟨7, 2, 4, 42000⟩) = some k ∧
      ∃ r, k.FindClosest [64] 2 = .ok r ∧ r.length = min 2 k.buckets.flatten.length ∧
        (∀ z ∈ r, z ∈ k.buckets.flatten) ∧ (r.map Node.Addr).Nodup ∧
        r.Pairwise (fun a b => ProxCmp [64] a.Addr b.Addr ≤ 0) ∧
        ∀ y ∈ k.buckets.flatten, y ∉ r → ∀ z ∈ r, ProxCmp [64] z.Addr y.Addr ≤ 0 :=
  ⟨_, rfl, find_closest_nearest [0] ⟨7, 2, 4, 42000⟩
    [(⟨[128], 0⟩, 0, .ok ()), (⟨[1], 0⟩, 0, .ok ()), (⟨[65], 0⟩, 0, .ok ())] _ [64] 2
    (by decide) (by decide) rfl rfl (by decide)⟩

end GoEthereum.Swarm
