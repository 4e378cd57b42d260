import GoEthereum.P2p.Table
import GoEthereum.Data.XorDistance

/-!
The iterative lookup of the discovery table (`p2p/discover/table.go`).
`Table.lookup` seeds its result with the `bucketSize` nodes of the table
nearest the target, asks up to `alpha` of them at a time for their
neighbours, and pushes each reply node whose ID no earlier reply named into
the result, which `nodesByDistance.push` keeps nearest first and at most
`bucketSize` long. The replies arrive in any order, each what `bondall`
makes of a `findnode` reply; a loop left waiting with no reply is `none`.

The result is nearest first, at most `bucketSize` long, never holds the
local node, and no dropped node is nearer than a kept one (`lookup_result`).
The IDs seen start empty, so a reply that names a node of the table pushes
it a second time (`lookup_repeats_node`).
-/

namespace GoEthereum.P2p.Discover

open Nearest XorDistance

/-- `NodeID`, the public key of a node. -/
abbrev NodeID := List UInt8

/-- A node as the lookup reads it: its ID and `sha`, the Keccak-256 hash of
the ID. -/
structure Node where
  ID : NodeID
  sha : List UInt8
  deriving DecidableEq, Repr

/-- `alpha`, the Kademlia concurrency factor. -/
def alpha : Nat := 3

/-- `bucketSize`, the Kademlia bucket size. -/
def bucketSize : Nat := 16

/-- `distcmp(target, a, b)`. -/
def distcmp (target a b : List UInt8) : Int := XorDistance.cmp target a b

/-- `nodesByDistance.push(n, maxElems)` on the entries of a
`nodesByDistance` for `target`: the place of `n` is the first entry farther
from the target. -/
def nodesByDistance.push (target : List UInt8) (entries : List Node) (n : Node)
    (maxElems : Nat) : List Node :=
  Nearest.push (fun n e => decide (distcmp target e.sha n.sha > 0)) entries n maxElems

/-- `Table.closest(target, nresults)`. -/
def Table.closest (tab : Table Node) (target : List UInt8) (nresults : Nat) : List Node :=
  tab.buckets.foldl (fun close b =>
    b.entries.foldl (fun close n => nodesByDistance.push target close n nresults) close) []

/-- `bondall` of a `findnode` reply whose nodes come with whether bonding with
them succeeds: the nodes `bond` returns. `bond` refuses the local node. -/
def bondall (self : Node) (nodes : List (Node × Bool)) : List Node :=
  nodes.filterMap fun nb => if nb.1.ID = self.ID then none else if nb.2 then some nb.1 else none

/-- The asking loop, `i < len(result.entries) && pendingQueries < alpha`: each
entry not asked before is asked. The IDs asked and the queries pending. -/
def ask : List Node → List NodeID → Nat → List NodeID × Nat
  | [], asked, pending => (asked, pending)
  | n :: entries, asked, pending =>
    if pending < alpha then
      if asked.contains n.ID then ask entries asked pending
      else ask entries (n.ID :: asked) (pending + 1)
    else (asked, pending)

/-- The loop over one reply: a node of an ID not seen yet is marked seen and
pushed. The IDs seen and the result. -/
def receive (target : List UInt8) (reply : List Node) (seen : List NodeID)
    (result : List Node) : List NodeID × List Node :=
  reply.foldl (fun acc n =>
    if acc.1.contains n.ID then acc
    else (n.ID :: acc.1, nodesByDistance.push target acc.2 n bucketSize)) (seen, result)

/-- The main loop of `lookup`, over the replies still to arrive: with no
query pending the search stops, and otherwise it waits for the next reply. -/
def lookupLoop (self : Node) (target : List UInt8) (asked seen : List NodeID) (pending : Nat)
    (result : List Node) : List (List (Node × Bool)) → Option (List Node)
  | [] => if (ask result asked pending).2 = 0 then some result else none
  | r :: rest =>
    let queried := ask result asked pending
    if queried.2 = 0 then some result
    else
      let got := receive target (bondall self r) seen result
      lookupLoop self target queried.1 got.1 (queried.2 - 1) got.2 rest

/-- `Table.lookup(targetID, refreshIfEmpty)`, with `keccak256` for
`crypto.Keccak256Hash` and `refreshed` the table the refresh leaves. -/
def Table.lookup (tab : Table Node) (self : Node) (keccak256 : NodeID → List UInt8)
    (targetID : NodeID) (refreshIfEmpty : Bool) (refreshed : Table Node)
    (replies : List (List (Node × Bool))) : Option (List Node) :=
  let target := keccak256 targetID
  let result :=
    if (tab.closest target bucketSize).length > 0 ∨ refreshIfEmpty = false then
      tab.closest target bucketSize
    else refreshed.closest target bucketSize
  -- don't query further if we hit ourself
  lookupLoop self target [self.ID] [] 0 result replies

/-! ### What a reply pushes -/

/-- The nodes of `xs` whose ID is neither in `seen` nor on an earlier node of
`xs`, in order: those the loop over a reply pushes. -/
def firstSeen : List NodeID → List Node → List Node
  | _, [] => []
  | seen, n :: ns =>
    if seen.contains n.ID then firstSeen seen ns else n :: firstSeen (n.ID :: seen) ns

theorem receive_cons (target : List UInt8) (n : Node) (reply : List Node) (seen : List NodeID)
    (result : List Node) :
    receive target (n :: reply) seen result =
      if seen.contains n.ID then receive target reply seen result
      else receive target reply (n.ID :: seen) (nodesByDistance.push target result n bucketSize) := by
  unfold receive
  rw [List.foldl_cons]
  split_ifs <;> rfl

/-- The loop over a reply marks the IDs of `firstSeen` seen and pushes its
nodes, in order. -/
theorem receive_eq (target : List UInt8) (reply : List Node) :
    ∀ (seen : List NodeID) (result : List Node), receive target reply seen result =
      (((firstSeen seen reply).map Node.ID).reverse ++ seen,
        (firstSeen seen reply).foldl (fun r n => nodesByDistance.push target r n bucketSize)
          result) := by
  induction reply with
  | nil =>
    intro seen result
    rfl
  | cons n reply ih =>
    intro seen result
    rw [receive_cons, firstSeen]
    by_cases hn : seen.contains n.ID
    · rw [if_pos hn, if_pos hn, ih]
    · rw [if_neg hn, if_neg hn, ih, List.map_cons, List.reverse_cons, List.append_assoc,
        List.foldl_cons]
      rfl

theorem firstSeen_append (xs ys : List Node) :
    ∀ seen : List NodeID, firstSeen seen (xs ++ ys) =
      firstSeen seen xs ++ firstSeen (((firstSeen seen xs).map Node.ID).reverse ++ seen) ys := by
  induction xs with
  | nil =>
    intro seen
    rfl
  | cons x xs ih =>
    intro seen
    rw [List.cons_append, firstSeen, firstSeen]
    by_cases hx : seen.contains x.ID
    · rw [if_pos hx, if_pos hx, ih]
    · rw [if_neg hx, if_neg hx, ih, List.cons_append, List.map_cons, List.reverse_cons,
        List.append_assoc]
      rfl

theorem firstSeen_sublist (xs : List Node) : ∀ seen : List NodeID, (firstSeen seen xs).Sublist xs := by
  induction xs with
  | nil =>
    intro seen
    exact List.Sublist.slnil
  | cons x xs ih =>
    intro seen
    rw [firstSeen]
    split_ifs
    · exact (ih seen).cons x
    · exact (ih _).cons_cons x

/-- A node of an unseen ID leaves a node of its ID among those pushed. -/
theorem exists_mem_firstSeen {xs : List Node} {n : Node} (hn : n ∈ xs) :
    ∀ {seen : List NodeID}, n.ID ∉ seen → ∃ m ∈ firstSeen seen xs, m.ID = n.ID := by
  induction xs with
  | nil => cases hn
  | cons x xs ih =>
    intro seen hseen
    rw [firstSeen]
    by_cases hx : seen.contains x.ID
    · rw [if_pos hx]
      rcases List.mem_cons.mp hn with rfl | hn
      · exact absurd (List.contains_iff_mem.mp hx) hseen
      · exact ih hn hseen
    · rw [if_neg hx]
      by_cases hxn : x.ID = n.ID
      · exact ⟨x, List.mem_cons_self, hxn⟩
      · rcases List.mem_cons.mp hn with rfl | hn
        · exact absurd rfl hxn
        · obtain ⟨m, hm, hmn⟩ := ih hn (by
            rw [List.mem_cons, not_or]
            exact ⟨Ne.symm hxn, hseen⟩)
          exact ⟨m, List.mem_cons_of_mem x hm, hmn⟩

theorem mem_bondall {self n : Node} {nodes : List (Node × Bool)} :
    n ∈ bondall self nodes ↔ (n, true) ∈ nodes ∧ n.ID ≠ self.ID := by
  unfold bondall
  rw [List.mem_filterMap]
  constructor
  · rintro ⟨⟨m, b⟩, hmb, hsome⟩
    dsimp only at hsome
    split_ifs at hsome with hself hb
    cases hsome
    subst hb
    exact ⟨hmb, hself⟩
  · rintro ⟨hn, hself⟩
    exact ⟨(n, true), hn, by simp [hself]⟩

/-! ### The asking loop -/

theorem le_ask (entries : List Node) :
    ∀ (asked : List NodeID) (pending : Nat), pending ≤ (ask entries asked pending).2 := by
  induction entries with
  | nil =>
    intro asked pending
    exact le_rfl
  | cons e entries ih =>
    intro asked pending
    rw [ask]
    split_ifs
    · exact ih asked pending
    · exact Nat.le_of_succ_le (ih _ _)
    · exact le_rfl

/-- An entry not asked yet is asked while fewer than `alpha` queries are
pending. -/
theorem lt_ask_cons {e : Node} (entries : List Node) {asked : List NodeID} {pending : Nat}
    (he : e.ID ∉ asked) (hp : pending < alpha) : pending < (ask (e :: entries) asked pending).2 := by
  rw [ask, if_pos hp, if_neg (mt List.contains_iff_mem.mp he)]
  exact Nat.lt_of_succ_le (le_ask entries _ _)

/-! ### The lookup -/

/-- The distance of a node's `sha` from the target, the order of `distcmp`. -/
def shaDistance (target : List UInt8) (n : Node) : Nat := distance target n.sha

theorem closest_eq (tab : Table Node) (target : List UInt8) (nresults : Nat) :
    tab.closest target nresults =
      (nodes tab.buckets).foldl (fun c n => nodesByDistance.push target c n nresults) [] := by
  rw [Table.closest, nodes, List.foldl_flatten, List.foldl_map]

section Spec

variable {target : List UInt8}

/-- Pushing nodes whose `sha` has the target's length keeps the result the
nearest of the nodes pushed. -/
theorem closest_push_all {L r xs : List Node} {max : Nat}
    (hL : ∀ n ∈ L, n.sha.length = target.length) (hxs : ∀ n ∈ xs, n.sha.length = target.length)
    (h : Closest (shaDistance target) max L r) :
    Closest (shaDistance target) max (L ++ xs)
      (xs.foldl (fun c n => nodesByDistance.push target c n max) r) :=
  Closest.foldl (fun x hx => splits_cmp_pos Node.sha target x hx) xs hxs hL h

/-- `closest` keeps the `nresults` nodes of the table nearest the target. -/
theorem closest_spec (tab : Table Node) (nresults : Nat)
    (hS : ∀ n ∈ nodes tab.buckets, n.sha.length = target.length) :
    Closest (shaDistance target) nresults (nodes tab.buckets) (tab.closest target nresults) := by
  rw [closest_eq, ← List.nil_append (nodes tab.buckets)]
  exact closest_push_all (by simp) hS (closest_nil _ nresults)

/-- The loop spec: a loop that returns leaves what pushing `L`, and then
the nodes of new IDs of the first `m` replies, leaves; it takes a reply
whenever the first asking round leaves a query pending. -/
theorem lookupLoop_spec (self : Node) (replies : List (List (Node × Bool)))
    (hreplies : ∀ r ∈ replies, ∀ nb ∈ r, nb.1.sha.length = target.length) :
    ∀ (asked seen : List NodeID) (pending : Nat) (result L res : List Node),
      (∀ n ∈ L, n.sha.length = target.length) →
      Closest (shaDistance target) bucketSize L result →
      lookupLoop self target asked seen pending result replies = some res →
      ∃ m, (0 < (ask result asked pending).2 → 0 < m) ∧
        Closest (shaDistance target) bucketSize
          (L ++ firstSeen seen ((replies.take m).flatMap (bondall self))) res := by
  induction replies with
  | nil =>
    intro asked seen pending result L res _ hc h
    rw [lookupLoop] at h
    split_ifs at h with hq
    cases h
    exact ⟨0, fun hpos => absurd hq (by omega), by simpa [firstSeen] using hc⟩
  | cons r rest ih =>
    intro asked seen pending result L res hL hc h
    rw [lookupLoop] at h
    dsimp only at h
    split_ifs at h with hq
    · -- no query pending: the search stops on the result it has
      cases h
      exact ⟨0, fun hpos => absurd hq (by omega), by simpa [firstSeen] using hc⟩
    · -- the next reply pushes its nodes of new IDs
      rw [receive_eq] at h
      have hfresh : ∀ n ∈ firstSeen seen (bondall self r), n.sha.length = target.length := by
        intro n hn
        have hb := (firstSeen_sublist _ seen).subset hn
        exact hreplies r List.mem_cons_self (n, true) (mem_bondall.mp hb).1
      have hL' : ∀ n ∈ L ++ firstSeen seen (bondall self r), n.sha.length = target.length := by
        intro n hn
        rcases List.mem_append.mp hn with hn | hn
        · exact hL n hn
        · exact hfresh n hn
      obtain ⟨m, -, hm⟩ := ih (fun r' hr' => hreplies r' (List.mem_cons_of_mem r hr')) _ _ _ _ _
        res hL' (closest_push_all hL hfresh hc) h
      refine ⟨m + 1, fun _ => Nat.succ_pos m, ?_⟩
      rw [List.take_succ_cons, List.flatMap_cons, firstSeen_append, ← List.append_assoc]
      exact hm

end Spec

theorem length_flatMap_bondall_le (self : Node) (replies : List (List (Node × Bool))) :
    ∀ m, ((replies.take m).flatMap (bondall self)).length ≤ replies.flatten.length := by
  induction replies with
  | nil =>
    intro m
    simp
  | cons r replies ih =>
    intro m
    cases m with
    | zero => simp
    | succ m =>
      rw [List.take_succ_cons, List.flatMap_cons, List.flatten_cons, List.length_append,
        List.length_append]
      have hr : (bondall self r).length ≤ r.length := List.length_filterMap_le _ _
      have := ih m
      omega

/-- With a table that is not empty, the lookup starts from the table's own
nearest nodes and never refreshes. -/
theorem lookup_eq_of_mem {tab : Table Node} {self : Node} {keccak256 : NodeID → List UInt8}
    {targetID : NodeID} {n : Node} (refreshIfEmpty : Bool) (refreshed : Table Node)
    (replies : List (List (Node × Bool)))
    (hS : ∀ m ∈ nodes tab.buckets, m.sha.length = (keccak256 targetID).length)
    (hn : n ∈ nodes tab.buckets) :
    tab.lookup self keccak256 targetID refreshIfEmpty refreshed replies =
      lookupLoop self (keccak256 targetID) [self.ID] [] 0
        (tab.closest (keccak256 targetID) bucketSize) replies := by
  have hlen := (closest_spec tab bucketSize hS).length_eq
  have hpos : 0 < (nodes tab.buckets).length := List.length_pos_of_mem hn
  rw [Table.lookup, if_pos (.inl (by rw [hlen, bucketSize]; omega))]

/-- The lookup returns what pushing the nodes of the table (or of the table
the refresh left) and then the reply nodes of new IDs leaves. -/
theorem lookup_spec (tab : Table Node) (self : Node) (keccak256 : NodeID → List UInt8)
    (targetID : NodeID) (refreshIfEmpty : Bool) (refreshed : Table Node)
    (replies : List (List (Node × Bool))) (res : List Node)
    (hS : ∀ n ∈ nodes tab.buckets ++ nodes refreshed.buckets,
      n.sha.length = (keccak256 targetID).length)
    (hreplies : ∀ r ∈ replies, ∀ nb ∈ r, nb.1.sha.length = (keccak256 targetID).length)
    (h : tab.lookup self keccak256 targetID refreshIfEmpty refreshed replies = some res) :
    ∃ T m, (T = tab ∨ T = refreshed) ∧
      Closest (shaDistance (keccak256 targetID)) bucketSize
        (nodes T.buckets ++ firstSeen [] ((replies.take m).flatMap (bondall self))) res := by
  have hT : ∀ T, (T = tab ∨ T = refreshed) →
      ∀ n ∈ nodes T.buckets, n.sha.length = (keccak256 targetID).length := by
    rintro T (rfl | rfl) n hn
    · exact hS n (List.mem_append_left _ hn)
    · exact hS n (List.mem_append_right _ hn)
  rw [Table.lookup] at h
  split_ifs at h
  · obtain ⟨m, -, hm⟩ := lookupLoop_spec self replies hreplies _ _ _ _ _ res (hT tab (.inl rfl))
      (closest_spec tab bucketSize (hT tab (.inl rfl))) h
    exact ⟨tab, m, .inl rfl, hm⟩
  · obtain ⟨m, -, hm⟩ := lookupLoop_spec self replies hreplies _ _ _ _ _ res
      (hT refreshed (.inr rfl)) (closest_spec refreshed bucketSize (hT refreshed (.inr rfl))) h
    exact ⟨refreshed, m, .inr rfl, hm⟩

/-- A node the replies pushed came bonded in one of them, and is not the
local node. -/
theorem mem_of_mem_firstSeen {self n : Node} {replies : List (List (Node × Bool))} {m : Nat}
    {seen : List NodeID} (hn : n ∈ firstSeen seen ((replies.take m).flatMap (bondall self))) :
    ∃ r ∈ replies, (n, true) ∈ r ∧ n.ID ≠ self.ID := by
  obtain ⟨r, hr, hnr⟩ := List.mem_flatMap.mp ((firstSeen_sublist _ seen).subset hn)
  exact ⟨r, List.mem_of_mem_take hr, mem_bondall.mp hnr⟩

/-- What lookup returns: at most `bucketSize` nodes, sorted by `distcmp`,
never the local node, and every node pushed and then dropped at least as far
as each node returned. -/
theorem lookup_result (tab : Table Node) (self : Node) (keccak256 : NodeID → List UInt8)
    (targetID : NodeID) (refreshIfEmpty : Bool) (refreshed : Table Node)
    (replies : List (List (Node × Bool))) (res : List Node)
    (hS : ∀ n ∈ nodes tab.buckets ++ nodes refreshed.buckets,
      n.sha.length = (keccak256 targetID).length)
    (hreplies : ∀ r ∈ replies, ∀ nb ∈ r, nb.1.sha.length = (keccak256 targetID).length)
    (hself : ∀ n ∈ nodes tab.buckets ++ nodes refreshed.buckets, n.ID ≠ self.ID)
    (h : tab.lookup self keccak256 targetID refreshIfEmpty refreshed replies = some res) :
    res.length ≤ bucketSize ∧
      res.Pairwise (fun a b => distcmp (keccak256 targetID) a.sha b.sha ≤ 0) ∧
      (∀ n ∈ res, n.ID ≠ self.ID) ∧
      ∃ T m, (T = tab ∨ T = refreshed) ∧
        res.Subperm (nodes T.buckets ++ firstSeen [] ((replies.take m).flatMap (bondall self))) ∧
        ∀ y ∈ nodes T.buckets ++ firstSeen [] ((replies.take m).flatMap (bondall self)),
          y ∉ res → ∀ z ∈ res, distcmp (keccak256 targetID) z.sha y.sha ≤ 0 := by
  obtain ⟨T, m, hT, hc⟩ := lookup_spec tab self keccak256 targetID refreshIfEmpty refreshed
    replies res hS hreplies h
  -- every node pushed is of the table or came bonded in a reply
  have hpushed : ∀ n ∈ nodes T.buckets ++ firstSeen [] ((replies.take m).flatMap (bondall self)),
      n.sha.length = (keccak256 targetID).length ∧ n.ID ≠ self.ID := by
    intro n hn
    rcases List.mem_append.mp hn with hn | hn
    · have hn' : n ∈ nodes tab.buckets ++ nodes refreshed.buckets := by
        rcases hT with rfl | rfl
        · exact List.mem_append_left _ hn
        · exact List.mem_append_right _ hn
      exact ⟨hS n hn', hself n hn'⟩
    · obtain ⟨r, hr, hnr, hnself⟩ := mem_of_mem_firstSeen hn
      exact ⟨hreplies r hr (n, true) hnr, hnself⟩
  have hres : ∀ n ∈ res, n.sha.length = (keccak256 targetID).length ∧ n.ID ≠ self.ID :=
    fun n hn => hpushed n (hc.subperm.subset hn)
  refine ⟨by rw [hc.length_eq]; exact Nat.min_le_left _ _, ?_, fun n hn => (hres n hn).2,
    T, m, hT, hc.subperm, ?_⟩
  · exact hc.sorted.imp_of_mem fun ha hb hab =>
      (cmp_nonpos_iff (hres _ ha).1 (hres _ hb).1).mpr hab
  · intro y hy hyr z hz
    exact (cmp_nonpos_iff (hres z hz).1 (hpushed y hy).1).mpr (hc.le_of_not_mem hy hyr hz)

/-- The IDs seen start empty, not with the nodes the table seeded the result
with: when a reply names a node of the table, bonded, and all that is pushed
fits in `bucketSize`, the lookup returns that node's ID twice. -/
theorem lookup_repeats_node (tab : Table Node) (self : Node) (keccak256 : NodeID → List UInt8)
    (targetID : NodeID) (refreshIfEmpty : Bool) (refreshed : Table Node)
    (r₀ : List (Node × Bool)) (replies : List (List (Node × Bool))) (n : Node) (res : List Node)
    (hS : ∀ m ∈ nodes tab.buckets, m.sha.length = (keccak256 targetID).length)
    (hreplies : ∀ r ∈ r₀ :: replies, ∀ nb ∈ r, nb.1.sha.length = (keccak256 targetID).length)
    (hself : ∀ m ∈ nodes tab.buckets, m.ID ≠ self.ID)
    (hn : n ∈ nodes tab.buckets) (hr₀ : (n, true) ∈ r₀)
    (hfit : (nodes tab.buckets).length + (r₀ :: replies).flatten.length ≤ bucketSize)
    (h : tab.lookup self keccak256 targetID refreshIfEmpty refreshed (r₀ :: replies) = some res) :
    ¬ (res.map Node.ID).Nodup := by
  have hclosest := closest_spec tab bucketSize hS
  rw [lookup_eq_of_mem refreshIfEmpty refreshed _ hS hn] at h
  obtain ⟨m, hm, hc⟩ := lookupLoop_spec self (r₀ :: replies) hreplies _ _ _ _ _ res hS hclosest h
  -- the first asking round asks the nearest node, which is not the local one
  have hpos : 0 < (ask (tab.closest (keccak256 targetID) bucketSize) [self.ID] 0).2 := by
    have hlen : 0 < (tab.closest (keccak256 targetID) bucketSize).length := by
      rw [hclosest.length_eq, bucketSize]
      have := List.length_pos_of_mem hn
      omega
    obtain ⟨e, es, hes⟩ := List.exists_cons_of_length_pos hlen
    have he : e.ID ≠ self.ID := hself e (hclosest.subperm.subset (hes ▸ List.mem_cons_self))
    rw [hes]
    exact lt_ask_cons es (by simpa using he) (by decide)
  -- so the first reply is taken, and it pushes a node of `n`'s ID again
  obtain ⟨m', rfl⟩ := Nat.exists_eq_add_of_lt (hm hpos)
  have hn₀ : n ∈ (((r₀ :: replies).take (0 + m' + 1)).flatMap (bondall self)) := by
    rw [Nat.zero_add, List.take_succ_cons, List.flatMap_cons]
    exact List.mem_append_left _ (mem_bondall.mpr ⟨hr₀, hself n hn⟩)
  obtain ⟨n', hn', hid⟩ := exists_mem_firstSeen hn₀ (List.not_mem_nil)
  have hfits : (nodes tab.buckets ++
      firstSeen [] (((r₀ :: replies).take (0 + m' + 1)).flatMap (bondall self))).length ≤
        bucketSize := by
    have h₁ := (firstSeen_sublist (((r₀ :: replies).take (0 + m' + 1)).flatMap (bondall self))
      []).length_le
    have h₂ := length_flatMap_bondall_le self (r₀ :: replies) (0 + m' + 1)
    rw [List.length_append]
    omega
  intro hnodup
  have hL := (hc.perm_of_length_le hfits).map Node.ID
  rw [List.map_append] at hL
  have hdisj := (List.nodup_append.mp (hL.nodup hnodup)).2.2
  exact hdisj _ (List.mem_map_of_mem hn) _ (List.mem_map_of_mem hn') hid.symm

/-- A table of one node, which answers the query with itself. -/
theorem lookup_repeats_node_selfReply :
    Table.lookup ⟨[⟨[⟨[1], [16]⟩]⟩]⟩ ⟨[0], [0]⟩ (fun _ => [0]) [0] true ⟨[]⟩
        [[(⟨[1], [16]⟩, true)]] = some [⟨[1], [16]⟩, ⟨[1], [16]⟩] ∧
      ¬ ([⟨[1], [16]⟩, ⟨[1], [16]⟩].map Node.ID : List NodeID).Nodup := by
  have hrun : Table.lookup ⟨[⟨[⟨[1], [16]⟩]⟩]⟩ ⟨[0], [0]⟩ (fun _ => [0]) [0] true ⟨[]⟩
      [[(⟨[1], [16]⟩, true)]] = some [⟨[1], [16]⟩, ⟨[1], [16]⟩] := by
    decide +kernel
  exact ⟨hrun, lookup_repeats_node ⟨[⟨[⟨[1], [16]⟩]⟩]⟩ ⟨[0], [0]⟩ (fun _ => [0]) [0] true ⟨[]⟩
    [(⟨[1], [16]⟩, true)] [] ⟨[1], [16]⟩ _ (by decide) (by decide) (by decide) (by decide)
    (by decide) (by decide) hrun⟩

end GoEthereum.P2p.Discover
