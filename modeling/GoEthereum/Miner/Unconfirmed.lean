import Mathlib

/-!
The blocks a miner has mined and waits to see confirmed (miner/unconfirmed.go).
`unconfirmedBlocks` keeps them in a ring, oldest first; `Insert` shifts out
the blocks that have reached the depth at the new block's height and puts the
new block last; `Shift` drops blocks from the front while they have, and
reports each against the canonical chain: missing, canonical, or a side
fork.

Over any run of Insert the blocks reported, then those still pending, are
the blocks mined in turn (`run_fst_append_blocks`). For blocks mined at
heights that do not decrease, the ring stays sorted, and the blocks reported
by the last Insert of a run are exactly those that have reached the depth at
its height (`run_matured`).
-/

namespace GoEthereum.Miner

structure unconfirmedBlock (Hash : Type) where
  index : UInt64
  hash : Hash
  deriving DecidableEq, Repr

/-- What Shift logs of a block it drops. -/
inductive Inclusion
  | missing
  | canonical
  | sideFork
  deriving DecidableEq, Repr

structure unconfirmedBlocks (Hash : Type) where
  depth : UInt64
  blocks : List (unconfirmedBlock Hash)

def newUnconfirmedBlocks {Hash : Type} (depth : UInt64) : unconfirmedBlocks Hash := ⟨depth, []⟩

variable {Hash : Type} [DecidableEq Hash] (chain : UInt64 → Option Hash)

/-- The switch of Shift on a block it drops. -/
def inclusion (next : unconfirmedBlock Hash) : Inclusion :=
  match chain next.index with
  | none => .missing
  | some hash => if hash = next.hash then .canonical else .sideFork

/-- The loop of Shift: drop blocks from the front, with their reports, until
one is too fresh. -/
def shiftLoop (depth height : UInt64) :
    List (unconfirmedBlock Hash) → List (unconfirmedBlock Hash × Inclusion) × List (unconfirmedBlock Hash)
  | [] => ([], [])
  | next :: rest =>
    if next.index + depth > height then ([], next :: rest)
    else
      let r := shiftLoop depth height rest
      ((next, inclusion chain next) :: r.1, r.2)

namespace unconfirmedBlocks

def Shift (set : unconfirmedBlocks Hash) (height : UInt64) :
    List (unconfirmedBlock Hash × Inclusion) × unconfirmedBlocks Hash :=
  let r := shiftLoop chain set.depth height set.blocks
  (r.1, { set with blocks := r.2 })

def Insert (set : unconfirmedBlocks Hash) (index : UInt64) (hash : Hash) :
    List (unconfirmedBlock Hash × Inclusion) × unconfirmedBlocks Hash :=
  let r := set.Shift chain index
  (r.1, { r.2 with blocks := r.2.blocks ++ [⟨index, hash⟩] })

/-- The miner inserting the blocks it mines in turn, with all that Shift
reports. -/
def run (set : unconfirmedBlocks Hash) :
    List (UInt64 × Hash) → List (unconfirmedBlock Hash × Inclusion) × unconfirmedBlocks Hash
  | [] => ([], set)
  | (index, hash) :: mined =>
    let r := set.Insert chain index hash
    let r' := run r.2 mined
    (r.1 ++ r'.1, r'.2)

/-! ### Every block mined is reported once or pending -/

theorem shiftLoop_reported_pending (depth height : UInt64) (l : List (unconfirmedBlock Hash)) :
    (shiftLoop chain depth height l).1.map Prod.fst ++ (shiftLoop chain depth height l).2 = l ∧
      ∀ p ∈ (shiftLoop chain depth height l).1, p.2 = inclusion chain p.1 := by
  induction l with
  | nil => exact ⟨rfl, fun _ hp => absurd hp List.not_mem_nil⟩
  | cons next rest ih =>
    rw [shiftLoop]
    split
    · exact ⟨rfl, fun _ hp => absurd hp List.not_mem_nil⟩
    · refine ⟨by rw [List.map_cons, List.cons_append, ih.1], fun p hp => ?_⟩
      rcases List.mem_cons.mp hp with rfl | hp
      · rfl
      · exact ih.2 p hp

theorem run_depth (set : unconfirmedBlocks Hash) (mined : List (UInt64 × Hash)) :
    (set.run chain mined).2.depth = set.depth := by
  induction mined generalizing set with
  | nil => rfl
  | cons p mined ih => exact ih _

/-- The blocks a run reports, then those left pending, are those of the ring
and those mined, in turn. -/
theorem run_fst_append_blocks (set : unconfirmedBlocks Hash) (mined : List (UInt64 × Hash)) :
    (set.run chain mined).1.map Prod.fst ++ (set.run chain mined).2.blocks =
      set.blocks ++ mined.map (fun p => ⟨p.1, p.2⟩) := by
  induction mined generalizing set with
  | nil => simp [run]
  | cons p mined ih =>
    obtain ⟨index, hash⟩ := p
    -- the shift's reports, then the rest of the run from the ring it leaves
    simp only [run, List.map_append, List.append_assoc, ih]
    simp only [Insert, Shift, List.map_cons, List.append_assoc, List.singleton_append]
    rw [← List.append_assoc, (shiftLoop_reported_pending chain set.depth index set.blocks).1]

/-! ### Blocks are reported when they reach the depth -/

/-- A block has reached the depth at a height: the test of Shift lets it go. -/
def matured (depth height : UInt64) (b : unconfirmedBlock Hash) : Bool := !decide (b.index + depth > height)

omit [DecidableEq Hash] in
theorem matured_iff {depth height : UInt64} {b : unconfirmedBlock Hash} :
    matured depth height b = true ↔ b.index + depth ≤ height := by
  simp [matured]

omit [DecidableEq Hash] in
/-- Below a block that has reached the depth, a block of no greater index
has too, while the sums do not wrap. -/
theorem matured_of_le {depth height : UInt64} {a b : unconfirmedBlock Hash} (hab : a.index ≤ b.index)
    (hb : b.index.toNat + depth.toNat < 2 ^ 64) (hmat : matured depth height b = true) :
    matured depth height a = true := by
  rw [matured_iff, UInt64.le_iff_toNat_le, UInt64.toNat_add] at hmat ⊢
  rw [UInt64.le_iff_toNat_le] at hab
  omega

omit [DecidableEq Hash] in
theorem matured_mono {depth h H : UInt64} (hH : h ≤ H) {b : unconfirmedBlock Hash}
    (hmat : matured depth h b = true) : matured depth H b = true := by
  rw [matured_iff] at hmat ⊢
  exact UInt64.le_trans hmat hH

/-- What Shift reports has reached the depth at its height. -/
theorem shiftLoop_matured (depth height : UInt64) (l : List (unconfirmedBlock Hash)) :
    ∀ p ∈ (shiftLoop chain depth height l).1, matured depth height p.1 = true := by
  induction l with
  | nil => exact fun _ hp => absurd hp List.not_mem_nil
  | cons next rest ih =>
    rw [shiftLoop]
    split
    · exact fun _ hp => absurd hp List.not_mem_nil
    · next hfresh =>
      intro p hp
      rcases List.mem_cons.mp hp with rfl | hp
      · simpa [matured] using hfresh
      · exact ih p hp

/-- On a ring sorted by index, Shift drops exactly the blocks that have
reached the depth. -/
theorem shiftLoop_sorted (depth height : UInt64) {l : List (unconfirmedBlock Hash)}
    (hsorted : l.Pairwise (fun a b => a.index ≤ b.index))
    (hwrap : ∀ b ∈ l, b.index.toNat + depth.toNat < 2 ^ 64) :
    shiftLoop chain depth height l =
      ((l.filter (matured depth height)).map (fun b => (b, inclusion chain b)),
        l.filter fun b => !matured depth height b) := by
  induction l with
  | nil => rfl
  | cons next rest ih =>
    obtain ⟨hnext, hrest⟩ := List.pairwise_cons.mp hsorted
    have ih' := ih hrest fun b hb => hwrap b (List.mem_cons_of_mem next hb)
    rw [shiftLoop]
    split
    · -- a fresh block stops the loop, and the later ones are no older
      next hfresh =>
      have hnot : matured depth height next = false := by simpa [matured] using hfresh
      have hnone : ∀ b ∈ rest, matured depth height b = false := fun b hb => by
        by_contra hmat
        have := matured_of_le (hnext b hb) (hwrap b (List.mem_cons_of_mem next hb)) (by simpa using hmat)
        rw [hnot] at this
        cases this
      rw [List.filter_cons_of_neg (by simp [hnot]), List.filter_eq_nil_iff.mpr (fun b hb => by simp [hnone b hb]),
        List.filter_cons_of_pos (by simp [hnot]), List.filter_eq_self.mpr (fun b hb => by simp [hnone b hb])]
      rfl
    · next hfresh =>
      have hmat : matured depth height next = true := by simpa [matured] using hfresh
      rw [ih', List.filter_cons_of_pos hmat, List.filter_cons_of_neg (by simp [hmat])]
      rfl

theorem run_append (set : unconfirmedBlocks Hash) (xs ys : List (UInt64 × Hash)) :
    set.run chain (xs ++ ys) =
      ((set.run chain xs).1 ++ ((set.run chain xs).2.run chain ys).1, ((set.run chain xs).2.run chain ys).2) := by
  induction xs generalizing set with
  | nil => simp [run]
  | cons p xs ih =>
    obtain ⟨index, hash⟩ := p
    simp only [List.cons_append, run, ih, List.append_assoc]

/-- Every block a run reports has reached the depth at any height no lower
than the blocks mined. -/
theorem run_reported_matured (set : unconfirmedBlocks Hash) (mined : List (UInt64 × Hash)) {H : UInt64}
    (hH : ∀ p ∈ mined, p.1 ≤ H) : ∀ q ∈ (set.run chain mined).1, matured set.depth H q.1 = true := by
  induction mined generalizing set with
  | nil => exact fun _ hq => absurd hq List.not_mem_nil
  | cons p mined ih =>
    obtain ⟨index, hash⟩ := p
    intro q hq
    simp only [run, List.mem_append] at hq
    rcases hq with hq | hq
    · exact matured_mono (hH _ List.mem_cons_self) (shiftLoop_matured chain set.depth index set.blocks q hq)
    · exact ih (set.Insert chain index hash).2 (fun p hp => hH p (List.mem_cons_of_mem _ hp)) q hq

/-- For blocks mined at heights that do not decrease, and whose heights plus
the depth do not wrap, the last Insert of a run from an empty ring leaves in
the ring exactly the earlier blocks that have not reached the depth at its
height, then the new block; the others have been reported, by it or
before. -/
theorem run_matured (depth : UInt64) (mined : List (UInt64 × Hash)) (index : UInt64) (hash : Hash)
    (hsorted : (mined ++ [(index, hash)]).Pairwise (fun a b => a.1 ≤ b.1))
    (hwrap : ∀ p ∈ mined, p.1.toNat + depth.toNat < 2 ^ 64) :
    ((newUnconfirmedBlocks depth).run chain (mined ++ [(index, hash)])).1.map Prod.fst =
        (mined.map fun p => (⟨p.1, p.2⟩ : unconfirmedBlock Hash)).filter (matured depth index) ∧
      ((newUnconfirmedBlocks depth).run chain (mined ++ [(index, hash)])).2.blocks =
        (mined.map fun p => (⟨p.1, p.2⟩ : unconfirmedBlock Hash)).filter (fun b => !matured depth index b) ++
          [⟨index, hash⟩] := by
  obtain ⟨hmined, -, hlast⟩ := List.pairwise_append.mp hsorted
  have hcons := run_fst_append_blocks chain (newUnconfirmedBlocks depth) mined
  have hdepth := run_depth chain (newUnconfirmedBlocks depth) mined
  -- the run had reported only blocks that have reached the depth at the last height
  have hreported : ∀ q ∈ ((newUnconfirmedBlocks depth).run chain mined).1,
      matured (newUnconfirmedBlocks depth).depth index q.1 = true :=
    run_reported_matured chain (newUnconfirmedBlocks depth) mined fun p hp => hlast p hp _ (List.mem_singleton_self _)
  rw [run_append]
  generalize (newUnconfirmedBlocks depth).run chain mined = R at hcons hdepth hreported ⊢
  generalize hblocks : (mined.map fun p => (⟨p.1, p.2⟩ : unconfirmedBlock Hash)) = blocks at hcons ⊢
  rw [show (newUnconfirmedBlocks depth : unconfirmedBlocks Hash).blocks = [] from rfl, List.nil_append] at hcons
  rw [show (newUnconfirmedBlocks depth : unconfirmedBlocks Hash).depth = depth from rfl] at hdepth hreported
  -- the ring before the last Insert: what the run has not reported of the blocks, in order
  have hsorted' : blocks.Pairwise (fun a b => a.index ≤ b.index) := hblocks ▸ List.pairwise_map.mpr hmined
  have hsuffix : R.2.blocks <:+ blocks := hcons ▸ List.suffix_append _ _
  have hring : R.2.blocks.Pairwise (fun a b => a.index ≤ b.index) := hsorted'.sublist hsuffix.sublist
  have hringwrap : ∀ b ∈ R.2.blocks, b.index.toNat + depth.toNat < 2 ^ 64 := by
    intro b hb
    have hb' := hsuffix.subset hb
    rw [← hblocks] at hb'
    obtain ⟨p, hp, rfl⟩ := List.mem_map.mp hb'
    exact hwrap p hp
  have hshift := shiftLoop_sorted chain depth index hring hringwrap
  have hfst : (R.1.map Prod.fst).filter (matured depth index) = R.1.map Prod.fst :=
    List.filter_eq_self.mpr fun b hb => by
      obtain ⟨q, hq, rfl⟩ := List.mem_map.mp hb
      exact hreported q hq
  have hfst' : (R.1.map Prod.fst).filter (fun b => !matured depth index b) = [] :=
    List.filter_eq_nil_iff.mpr fun b hb => by
      obtain ⟨q, hq, rfl⟩ := List.mem_map.mp hb
      simp [hreported q hq]
  simp only [run, Insert, Shift, List.append_nil]
  rw [hdepth, hshift, ← hcons, List.filter_append, List.filter_append, hfst, hfst', List.nil_append,
    List.map_append, List.map_map]
  exact ⟨congrArg _ (List.map_id'' (fun _ => rfl) _), rfl⟩

theorem run_matured_three :
    let mined : List (UInt64 × Nat) := [(1, 7), (2, 8)]
    List.Pairwise (fun a b : UInt64 × Nat => a.1 ≤ b.1) (mined ++ [(3, 9)]) ∧
      ((newUnconfirmedBlocks 2).run (fun _ => none) (mined ++ [(3, 9)])).2.blocks =
        (mined.map fun p => (⟨p.1, p.2⟩ : unconfirmedBlock Nat)).filter (fun b => !matured 2 3 b) ++ [⟨3, 9⟩] :=
  ⟨by decide, (run_matured (fun _ => none) 2 [(1, 7), (2, 8)] 3 9 (by decide) (by decide)).2⟩

end unconfirmedBlocks

end GoEthereum.Miner
