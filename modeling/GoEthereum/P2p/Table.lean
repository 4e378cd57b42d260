import Mathlib

/-!
Reading random nodes from a discovery table: `Table.ReadRandomNodes` of
p2p/discover and `Table.readRandomNodes` of p2p/discv5, whose bodies are
the same code. The non-empty buckets are shuffled and then drained
round-robin into the caller's buffer, one head per step, dropping a bucket
once it is empty (`fill_spec`).

When the table holds no more nodes than the buffer, the count returned is
that number and the buffer starts with every node once
(`readRandomNodes_of_le`). When it holds more, the loop ends because
`i < len(buf)` fails and the function returns `i + 1`, one more than the
buffer's length (`read_random_nodes_overcounts`).
-/

namespace GoEthereum.P2p

open List

variable {α : Type}

structure Bucket (α : Type) where
  entries : List α
deriving DecidableEq, Repr

/-- randUint: a random 32-bit word reduced below `max`, and 0 for `max = 0`. -/
def randUint (word max : Nat) : Nat :=
  if max = 0 then 0 else word % max

/-- The shuffle loop from `i` down to 1, swapping `buckets[i]` with a
random earlier slot. -/
def shuffle (words : Nat → Nat) : Nat → List (List α) → List (List α)
  | 0, buckets => buckets
  | i + 1, buckets => shuffle words i (buckets.swap (i + 1) (randUint (words (i + 1)) (i + 1)))

/-- buckets[j] = b[1:], and the removal of the bucket once it is empty. -/
def dropHead (buckets : List (List α)) (j : Nat) (b : List α) : List (List α) :=
  let buckets := buckets.set j b.tail
  if b.length = 1 then buckets.eraseIdx j else buckets

/-- The fill loop at index `i` with cursor `j`, with `k` iterations left
before `i < len(buf)` fails: the final `i` and the buffer. -/
def fill : Nat → Nat → Nat → List (List α) → List α → Option (Nat × List α)
  | 0, i, _, _, buf => some (i, buf)
  | k + 1, i, j, buckets, buf => do
    let b ← buckets[j]?
    let head ← b.head?
    let buf := buf.set i head
    let buckets := dropHead buckets j b
    if buckets.length = 0 then some (i, buf)
    else fill k (i + 1) ((j + 1) % buckets.length) buckets buf

/-- The shared body: the count returned and the buffer after the call. -/
def readRandomNodes (words : Nat → Nat) (tab : List (Bucket α)) (buf : List α) :
    Option (Nat × List α) :=
  let buckets := (tab.filter fun b => decide (0 < b.entries.length)).map Bucket.entries
  if buckets.length = 0 then some (0, buf)
  else do
    let buckets := shuffle words (buckets.length - 1) buckets
    let (i, buf) ← fill buf.length 0 0 buckets buf
    some (i + 1, buf)

namespace Discover

structure Table (α : Type) where
  buckets : List (Bucket α)

def Table.ReadRandomNodes (tab : Table α) (words : Nat → Nat) (buf : List α) :
    Option (Nat × List α) :=
  readRandomNodes words tab.buckets buf

end Discover

namespace Discv5

structure Table (α : Type) where
  buckets : List (Bucket α)

def Table.readRandomNodes (tab : Table α) (words : Nat → Nat) (buf : List α) :
    Option (Nat × List α) :=
  P2p.readRandomNodes words tab.buckets buf

end Discv5

/-- The nodes of a table, bucket after bucket. -/
def nodes (tab : List (Bucket α)) : List α :=
  (tab.map Bucket.entries).flatten

section Buckets

variable {buckets : List (List α)} {j : Nat} {h : α} {t : List α}

theorem perm_flatten_set_tail (hj : buckets[j]? = some (h :: t)) :
    h :: (buckets.set j t).flatten ~ buckets.flatten := by
  induction buckets generalizing j with
  | nil => simp at hj
  | cons b buckets ih =>
    cases j with
    | zero =>
      simp only [getElem?_cons_zero, Option.some.injEq] at hj
      subst hj
      rfl
    | succ j =>
      simp only [getElem?_cons_succ] at hj
      simp only [set_cons_succ, flatten_cons]
      exact perm_middle.symm.trans ((ih hj).append_left b)

theorem flatten_eraseIdx_of_nil (hj : buckets[j]? = some []) :
    (buckets.eraseIdx j).flatten = buckets.flatten := by
  induction buckets generalizing j with
  | nil => simp at hj
  | cons b buckets ih =>
    cases j with
    | zero =>
      simp only [getElem?_cons_zero, Option.some.injEq] at hj
      simp [hj]
    | succ j =>
      simp only [getElem?_cons_succ] at hj
      simp [ih hj]

/-- Dropping the head of bucket `j` keeps every other node. -/
theorem perm_flatten_dropHead (hj : buckets[j]? = some (h :: t)) :
    h :: (dropHead buckets j (h :: t)).flatten ~ buckets.flatten := by
  have hlt : j < buckets.length := (List.getElem?_eq_some_iff.mp hj).1
  unfold dropHead
  split
  · have ht : t = [] := by simpa using ‹(h :: t).length = 1›
    subst ht
    rw [flatten_eraseIdx_of_nil (by simp [hlt])]
    exact perm_flatten_set_tail hj
  · exact perm_flatten_set_tail hj

/-- Dropping a head keeps every bucket non-empty. -/
theorem dropHead_ne_nil (hne : ∀ b ∈ buckets, b ≠ []) :
    ∀ b ∈ dropHead buckets j (h :: t), b ≠ [] := by
  intro b hb
  unfold dropHead at hb
  split at hb
  · rw [eraseIdx_set_eq] at hb
    exact hne b (mem_of_mem_eraseIdx hb)
  · have ht : t ≠ [] := by
      intro ht
      simp_all
    rcases mem_or_eq_of_mem_set hb with hb | rfl
    · exact hne b hb
    · exact ht

theorem length_pos_of_ne_nil (hne : ∀ b ∈ buckets, b ≠ []) (hpos : 0 < buckets.length) :
    0 < buckets.flatten.length := by
  obtain ⟨b, bs, rfl⟩ := exists_cons_of_length_pos hpos
  have hb := hne b mem_cons_self
  simp only [flatten_cons, length_append]
  have := length_pos_of_ne_nil hb
  omega

theorem shuffle_perm (words : Nat → Nat) (i : Nat) (buckets : List (List α)) :
    shuffle words i buckets ~ buckets := by
  induction i generalizing buckets with
  | zero => rfl
  | succ i ih => exact (ih _).trans (swap_perm _ _ _)

end Buckets

section Fill

variable {buckets : List (List α)} {j : Nat} {h : α} {t : List α}

theorem fill_succ (k i : Nat) (buf : List α) (hj : buckets[j]? = some (h :: t)) :
    fill (k + 1) i j buckets buf =
      if (dropHead buckets j (h :: t)).length = 0 then some (i, buf.set i h)
      else fill k (i + 1) ((j + 1) % (dropHead buckets j (h :: t)).length)
        (dropHead buckets j (h :: t)) (buf.set i h) := by
  simp only [fill, hj, Option.bind_eq_bind, Option.bind_some, head?_cons]

/-- What the drain does: it writes `ws`, distinct nodes of the buckets, from
index `i` on, as many as the loop has steps or the buckets have nodes, and
it ends on the last index written if the buckets ran dry first. -/
theorem fill_spec (k i j : Nat) (buckets : List (List α)) (buf : List α)
    (hne : ∀ b ∈ buckets, b ≠ []) (hj : j < buckets.length) (hbuf : i + k = buf.length) :
    ∃ ws : List α, ws.length = min k buckets.flatten.length ∧ ws.Subperm buckets.flatten ∧
      fill k i j buckets buf =
        some (if buckets.flatten.length ≤ k then i + ws.length - 1 else i + k,
          buf.take i ++ ws ++ buf.drop (i + ws.length)) := by
  induction k generalizing i j buckets buf with
  | zero =>
    have htotal := length_pos_of_ne_nil hne (by omega)
    refine ⟨[], by simp, nil_subperm, ?_⟩
    rw [fill, if_neg (by omega)]
    simp
  | succ k ih =>
    -- the head of bucket j goes to buf[i]
    obtain ⟨b, hb⟩ : ∃ b, buckets[j]? = some b := ⟨_, getElem?_eq_getElem hj⟩
    obtain ⟨h, t, rfl⟩ := exists_cons_of_ne_nil (hne b (mem_of_getElem? hb))
    have hperm := perm_flatten_dropHead hb
    have hlen : (dropHead buckets j (h :: t)).flatten.length + 1 = buckets.flatten.length := by
      rw [← hperm.length_eq, length_cons]
    have hi : i < buf.length := by omega
    have hset : buf.set i h = buf.take i ++ h :: buf.drop (i + 1) := set_eq_take_cons_drop h hi
    rw [fill_succ k i buf hb]
    split
    · -- the buckets ran dry: buf[i] was the last node
      rename_i hempty
      have hnil : (dropHead buckets j (h :: t)).flatten.length = 0 := by
        rw [length_eq_zero_iff.mp hempty]
        rfl
      refine ⟨[h], by rw [length_singleton]; omega,
        singleton_subperm_iff.mpr (hperm.subset mem_cons_self), ?_⟩
      rw [if_pos (by omega), hset, length_singleton, Nat.add_sub_cancel]
      simp
    · rename_i hpos
      obtain ⟨ws, hws, hsub, hfill⟩ := ih (i + 1) ((j + 1) % (dropHead buckets j (h :: t)).length)
        (dropHead buckets j (h :: t)) (buf.set i h) (dropHead_ne_nil hne)
        (Nat.mod_lt _ (by omega)) (by rw [length_set]; omega)
      refine ⟨h :: ws, by rw [length_cons]; omega,
        ((subperm_cons h).mpr hsub).trans hperm.subperm, ?_⟩
      have hend : (if (dropHead buckets j (h :: t)).flatten.length ≤ k then i + 1 + ws.length - 1
          else i + 1 + k) =
          if buckets.flatten.length ≤ k + 1 then i + (h :: ws).length - 1 else i + (k + 1) := by
        rw [length_cons]
        split_ifs <;> omega
      have htake : (buf.set i h).take (i + 1) = buf.take i ++ [h] := by
        rw [hset, take_append, length_take, Nat.min_eq_left hi.le, take_of_length_le (by simp),
          Nat.add_sub_cancel_left, take_succ_cons, take_zero]
      have hdrop : (buf.set i h).drop (i + 1 + ws.length) = buf.drop (i + (h :: ws).length) := by
        rw [drop_set_of_lt (by omega), length_cons, show i + 1 + ws.length = i + (ws.length + 1) by omega]
      rw [hfill, hend, htake, hdrop, append_assoc (buf.take i) [h], singleton_append]

end Fill

section Read

variable (words : Nat → Nat) (tab : List (Bucket α)) (buf : List α)

theorem flatten_nonempty (tab : List (Bucket α)) :
    ((tab.filter fun b => decide (0 < b.entries.length)).map Bucket.entries).flatten = nodes tab := by
  induction tab with
  | nil => rfl
  | cons b tab ih =>
    unfold nodes at ih ⊢
    by_cases hb : 0 < b.entries.length
    · rw [filter_cons_of_pos (by simpa using hb), map_cons, flatten_cons, ih, map_cons,
        flatten_cons]
    · have hnil : b.entries = [] := eq_nil_of_length_eq_zero (by omega)
      rw [filter_cons_of_neg (by simpa using hb), ih, map_cons, flatten_cons, hnil, nil_append]

theorem ne_nil_of_mem_nonempty {tab : List (Bucket α)} {b : List α}
    (hb : b ∈ (tab.filter fun b => decide (0 < b.entries.length)).map Bucket.entries) : b ≠ [] := by
  obtain ⟨e, he, rfl⟩ := mem_map.mp hb
  exact ne_nil_of_length_pos (of_decide_eq_true (mem_filter.mp he).2)

/-- The whole call: the drain writes up to `len(buf)` distinct nodes of the
table to the front of the buffer, and the count returned is the number of
nodes if they all fit, and `len(buf) + 1` if not. -/
theorem readRandomNodes_spec :
    ∃ ws : List α, ws.length = min buf.length (nodes tab).length ∧ ws.Subperm (nodes tab) ∧
      readRandomNodes words tab buf =
        some (if (nodes tab).length ≤ buf.length then (nodes tab).length else buf.length + 1,
          ws ++ buf.drop ws.length) := by
  have hflat := flatten_nonempty tab
  have hne : ∀ b ∈ (tab.filter fun b => decide (0 < b.entries.length)).map Bucket.entries,
      b ≠ [] := fun b hb => ne_nil_of_mem_nonempty hb
  unfold readRandomNodes
  dsimp only
  generalize (tab.filter fun b => decide (0 < b.entries.length)).map Bucket.entries = B at hflat hne ⊢
  by_cases hB : B.length = 0
  · -- no bucket has a node
    have hnodes : nodes tab = [] := by
      rw [← hflat, length_eq_zero_iff.mp hB, flatten_nil]
    refine ⟨[], by simp [hnodes], nil_subperm, ?_⟩
    rw [if_pos hB, hnodes]
    simp
  · rw [if_neg hB]
    have hperm := shuffle_perm words (B.length - 1) B
    generalize shuffle words (B.length - 1) B = S at hperm ⊢
    have hS : S.flatten ~ nodes tab := hflat ▸ hperm.flatten
    obtain ⟨ws, hws, hsub, hfill⟩ := fill_spec buf.length 0 0 S buf
      (fun b hb => hne b (hperm.subset hb)) (by rw [hperm.length_eq]; omega) (Nat.zero_add _)
    refine ⟨ws, by rw [hws, hS.length_eq], hsub.trans hS.subperm, ?_⟩
    have htotal : 0 < (nodes tab).length := hS.length_eq ▸
      length_pos_of_ne_nil (fun b hb => hne b (hperm.subset hb)) (by rw [hperm.length_eq]; omega)
    rw [hS.length_eq] at hws
    rw [hfill, hS.length_eq]
    simp only [Option.bind_eq_bind, Option.bind_some, take_zero, nil_append, Nat.zero_add,
      Option.some.injEq, Prod.mk.injEq, and_true]
    split_ifs <;> omega

/-- When every node fits, the count is the number of nodes, the buffer
starts with each node once, and the rest of it is untouched. -/
theorem readRandomNodes_of_le (hle : (nodes tab).length ≤ buf.length) :
    ∃ ws : List α, ws ~ nodes tab ∧
      readRandomNodes words tab buf = some (ws.length, ws ++ buf.drop ws.length) := by
  obtain ⟨ws, hws, hsub, hread⟩ := readRandomNodes_spec words tab buf
  have hlen : ws.length = (nodes tab).length := by
    rw [hws]
    omega
  refine ⟨ws, hsub.perm_of_length_le hlen.ge, ?_⟩
  rw [hread, if_pos hle, hlen]

/-- When the table holds more nodes than the buffer, both tables fill the
buffer with distinct nodes and report one node more than it holds. -/
theorem read_random_nodes_overcounts (tab : List (Bucket α)) (buf : List α)
    (hmore : buf.length < (nodes tab).length) :
    ∃ ws : List α, ws.length = buf.length ∧ ws.Subperm (nodes tab) ∧
      Discover.Table.ReadRandomNodes ⟨tab⟩ words buf = some (buf.length + 1, ws) ∧
      Discv5.Table.readRandomNodes ⟨tab⟩ words buf = some (buf.length + 1, ws) := by
  obtain ⟨ws, hws, hsub, hread⟩ := readRandomNodes_spec words tab buf
  have hlen : ws.length = buf.length := by
    rw [hws]
    omega
  have hdrop : buf.drop ws.length = [] := drop_eq_nil_of_le hlen.ge
  rw [if_neg (by omega), hdrop, append_nil] at hread
  exact ⟨ws, hlen, hsub, hread, hread⟩

/-- One bucket of two nodes read into a buffer of one. -/
theorem read_random_nodes_overcounts_twoInOne :
    (1 : Nat) < (nodes [(⟨[1, 2]⟩ : Bucket Nat)]).length ∧
    ∃ ws : List Nat, ws.length = 1 ∧ ws.Subperm (nodes [(⟨[1, 2]⟩ : Bucket Nat)]) ∧
      Discover.Table.ReadRandomNodes ⟨[⟨[1, 2]⟩]⟩ (fun _ => 0) [0] = some (1 + 1, ws) ∧
      Discv5.Table.readRandomNodes ⟨[⟨[1, 2]⟩]⟩ (fun _ => 0) [0] = some (1 + 1, ws) :=
  ⟨by decide, read_random_nodes_overcounts (fun _ => 0) [⟨[1, 2]⟩] [0] (by decide)⟩

end Read

end GoEthereum.P2p
