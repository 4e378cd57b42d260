import GoEthereum.Data.WeightedPick

/-!
The weighted random selection of the light client (les/randselect.go): a
set of items with weights, from which `choose` draws an item with a chance
proportional to its weight. The items sit in the leaves of a tree of
`wrsNode`s of eight branches, each keeping the weights below its branches,
their sum, its item count and its room. `insert` fills the first free leaf,
`setWeight` rewrites one (0 frees it), and `choose` walks down by a value in
`[0, sumWeight)`.

The level is an index of the node's type (`Entry`), so the code's level tests
and type assertions always find what they expect. On a well-formed node
(`WF`) `choose` is `pick` on the row of leaves (`WrsNode.choose_eq`), so the
values that choose an item are as many as its weight (`WrsNode.card_choose`).
-/

namespace GoEthereum.Les.RandSelect

open GoEthereum.WeightedPick

/-- `wrsBranches`: the number of branches of a node. -/
abbrev wrsBranches : Nat := 8

/-- `wrsNode`, whose slots hold entries of type `C`. -/
structure WrsNode (C : Type) where
  items : Fin wrsBranches → Option C
  weights : Fin wrsBranches → Int
  sumWeight : Int
  itemCnt : Nat
  maxItems : Nat

/-- What the slots of a node of level `l` hold: items at level 0, nodes of
level `l - 1` above it. Reducible, so that `simp` sees the items of a node of
level 0 as the set's items. -/
@[reducible] def Entry (α : Type) : Nat → Type
  | 0 => α
  | l + 1 => WrsNode (Entry α l)

variable {α : Type}

/-- A node with nothing in it, as `&wrsNode{maxItems: maxItems}` makes it. -/
def WrsNode.empty {C : Type} (maxItems : Nat) : WrsNode C :=
  ⟨fun _ => none, fun _ => 0, 0, 0, maxItems⟩

/-- The loop at the start of `insert`: the first branch that is not taken,
and `none` where the loop reaches `wrsBranches` and panics. -/
def firstBranch (taken : Fin wrsBranches → Bool) : Option (Fin wrsBranches) :=
  (List.finRange wrsBranches).find? fun b => !taken b

/-- What `insert` does at each node it passes: one more item, its weight
added to the node and to the branch, whose slot then holds `x`. -/
def WrsNode.place {C : Type} (n : WrsNode C) (branch : Fin wrsBranches) (x : C) (weight : Int) :
    WrsNode C :=
  { n with
    itemCnt := n.itemCnt + 1
    sumWeight := n.sumWeight + weight
    weights := Function.update n.weights branch (n.weights branch + weight)
    items := Function.update n.items branch (some x) }

/-- `wrsNode.insert`: the node after the insertion and the item's index. -/
def WrsNode.insert : (l : Nat) → WrsNode (Entry α l) → α → Int → Option (WrsNode (Entry α l) × Nat)
  | 0, n, item, weight =>
    match firstBranch fun b => (n.items b).isSome with
    | none => none
    | some branch => some (n.place branch item weight, branch)
  | l + 1, n, item, weight =>
    -- a full subtree counts as taken
    match firstBranch fun b => (n.items b).any fun c => WrsNode.itemCnt c == WrsNode.maxItems c with
    | none => none
    | some branch =>
      let subNode : WrsNode (Entry α l) :=
        (n.items branch).getD (WrsNode.empty (n.maxItems / wrsBranches))
      match WrsNode.insert l subNode item weight with
      | none => none
      | some (subNode', subIdx) =>
        some (n.place branch subNode' weight, subNode.maxItems * branch + subIdx)

/-- `wrsNode.setWeight`: the node after the weight at index `idx` is set, and
the change of that weight. A weight of 0 frees the leaf. -/
def WrsNode.setWeight : (l : Nat) → WrsNode (Entry α l) → Nat → Int → Option (WrsNode (Entry α l) × Int)
  | 0, n, idx, weight =>
    if h : idx < wrsBranches then
      let i : Fin wrsBranches := ⟨idx, h⟩
      let diff := weight - n.weights i
      let n := { n with
        weights := Function.update n.weights i weight
        sumWeight := n.sumWeight + diff }
      if weight = 0 then
        some ({ n with items := Function.update n.items i none, itemCnt := n.itemCnt - 1 }, diff)
      else some (n, diff)
    else none
  | l + 1, n, idx, weight =>
    let branchItems := n.maxItems / wrsBranches
    -- Go panics on the division by zero
    if branchItems = 0 then none
    else
      let branch := idx / branchItems
      if h : branch < wrsBranches then
        let b : Fin wrsBranches := ⟨branch, h⟩
        match n.items b with
        | none => none
        | some c =>
          match WrsNode.setWeight l c (idx - branch * branchItems) weight with
          | none => none
          | some (c', diff) =>
            let n := { n with
              items := Function.update n.items b (some c')
              weights := Function.update n.weights b (n.weights b + diff)
              sumWeight := n.sumWeight + diff }
            some (if weight = 0 then { n with itemCnt := n.itemCnt - 1 } else n, diff)
      else none

/-- `wrsNode.choose`: the item the value falls on, with its weight. -/
def WrsNode.choose : (l : Nat) → WrsNode (Entry α l) → Int → Option (α × Int)
  | 0, n, val =>
    match pick n.weights (List.finRange wrsBranches) val with
    | none => none
    | some (i, _) => (n.items i).map fun item => (item, n.weights i)
  | l + 1, n, val =>
    match pick n.weights (List.finRange wrsBranches) val with
    | none => none
    | some (i, val) => (n.items i).bind fun c => WrsNode.choose l c val

/-- `weightedRandomSelect`: the root of the tree, at its level, and the index
of each item in it (`idx`, a Go map, as a function). -/
structure WeightedRandomSelect (α : Type) where
  level : Nat
  root : WrsNode (Entry α level)
  idx : α → Option Nat

/-- `newWeightedRandomSelect`. -/
def newWeightedRandomSelect : WeightedRandomSelect α :=
  ⟨0, WrsNode.empty wrsBranches, fun _ => none⟩

/-- The level `setWeight` adds over a full root: a root one level up whose
branch 0 is the old root. -/
def WeightedRandomSelect.addLevel (w : WeightedRandomSelect α) : WeightedRandomSelect α where
  level := w.level + 1
  root :=
    { items := Function.update (fun _ => none) 0 (some w.root)
      weights := Function.update (fun _ => 0) 0 w.root.sumWeight
      sumWeight := w.root.sumWeight
      itemCnt := w.root.itemCnt
      maxItems := w.root.maxItems * wrsBranches }
  idx := w.idx

section Select

variable [DecidableEq α]

/-- `weightedRandomSelect.setWeight`; a weight of 0 removes the item. -/
def WeightedRandomSelect.setWeight (w : WeightedRandomSelect α) (item : α) (weight : Int) :
    Option (WeightedRandomSelect α) :=
  match w.idx item with
  | some idx =>
    match WrsNode.setWeight w.level w.root idx weight with
    | none => none
    | some (root, _) =>
      some { w with
        root := root
        idx := if weight = 0 then Function.update w.idx item none else w.idx }
  | none =>
    if weight = 0 then some w
    else
      let w := if w.root.itemCnt = w.root.maxItems then w.addLevel else w
      match WrsNode.insert w.level w.root item weight with
      | none => none
      | some (root, i) => some { w with root := root, idx := Function.update w.idx item (some i) }

/-- `weightedRandomSelect.update`: the weight the item's `Weight` method gives. -/
def WeightedRandomSelect.update (Weight : α → Int) (w : WeightedRandomSelect α) (item : α) :
    Option (WeightedRandomSelect α) :=
  w.setWeight item (Weight item)

/-- `weightedRandomSelect.remove`. -/
def WeightedRandomSelect.remove (w : WeightedRandomSelect α) (item : α) :
    Option (WeightedRandomSelect α) :=
  w.setWeight item 0

/-- `weightedRandomSelect.choose`, given the values its calls of
`rand.Int63n` return, pass after pass: `val` over the total weight, and `r`
over the last weight of the item `val` chose. The item's weight may have gone
down since it was stored: the stored weight is brought up to date, and the
item kept with the chance the new weight has against the old, or the loop
runs again. `none` where it panics or runs out of draws. -/
def WeightedRandomSelect.choose (Weight : α → Int) :
    List (Int × Int) → WeightedRandomSelect α → Option (Option α × WeightedRandomSelect α)
  | draws, w =>
    if w.root.sumWeight = 0 then some (none, w)
    else
      match draws with
      | [] => none
      | (val, r) :: draws =>
        match WrsNode.choose w.level w.root val with
        | none => none
        | some (choice, lastWeight) =>
          let weight := Weight choice
          match (if weight ≠ lastWeight then w.setWeight choice weight else some w) with
          | none => none
          | some w =>
            if weight ≥ lastWeight ∨ r < weight then some (some choice, w)
            else WeightedRandomSelect.choose Weight draws w

end Select

/-! ### The row of leaves -/

/-- The leaf at position `p` of a node of level `l`, with its weight:
position `p` of a node of level `l + 1` is position `p % 8 ^ (l + 1)` of its
branch `p / 8 ^ (l + 1)`. -/
def slot : (l : Nat) → WrsNode (Entry α l) → Nat → Option (α × Int)
  | 0, n, p =>
    if h : p < wrsBranches then (n.items ⟨p, h⟩).map fun item => (item, n.weights ⟨p, h⟩) else none
  | l + 1, n, p =>
    if h : p / 8 ^ (l + 1) < wrsBranches then
      (n.items ⟨p / 8 ^ (l + 1), h⟩).bind fun c => slot l c (p % 8 ^ (l + 1))
    else none

/-- The weight of the leaf at position `p`, 0 for a free one. -/
def leafWeight (l : Nat) (n : WrsNode (Entry α l)) (p : Nat) : Int :=
  (slot l n p).elim 0 Prod.snd

section Leaves

variable {l : Nat}

theorem slot_zero (n : WrsNode (Entry α 0)) (b : Fin wrsBranches) :
    slot 0 n b = (n.items b).map fun item => (item, n.weights b) := by
  rw [slot, dif_pos b.isLt]

theorem pow_eight_pos (l : Nat) : 0 < 8 ^ l := Nat.pow_pos (by decide)

/-- Position `8 ^ (l + 1) * b + i` of a node of level `l + 1` is position `i`
of its branch `b`. -/
theorem slot_succ (n : WrsNode (Entry α (l + 1))) (b : Fin wrsBranches) {i : Nat}
    (hi : i < 8 ^ (l + 1)) :
    slot (l + 1) n (8 ^ (l + 1) * b + i) = (n.items b).bind fun c => slot l c i := by
  have hM := pow_eight_pos (l + 1)
  have hdiv : (8 ^ (l + 1) * b + i) / 8 ^ (l + 1) = b := by
    rw [Nat.mul_add_div hM, Nat.div_eq_of_lt hi, Nat.add_zero]
  have hmod : (8 ^ (l + 1) * b + i) % 8 ^ (l + 1) = i := by
    rw [Nat.mul_add_mod, Nat.mod_eq_of_lt hi]
  rw [slot, dif_pos (by rw [hdiv]; exact b.isLt)]
  simp only [hdiv, hmod]

/-- A node of level `l` has `8 ^ (l + 1)` leaves. -/
theorem slot_eq_none (n : WrsNode (Entry α l)) {p : Nat} (hp : 8 ^ (l + 1) ≤ p) :
    slot l n p = none := by
  cases l with
  | zero => rw [slot, dif_neg (show ¬ p < 8 by simp at hp; omega)]
  | succ l =>
    have hq : ¬ p / 8 ^ (l + 1) < 8 := by
      rw [Nat.div_lt_iff_lt_mul (pow_eight_pos (l + 1)), ← Nat.pow_succ']
      omega
    rw [slot, dif_neg hq]

@[simp] theorem slot_empty (m p : Nat) : slot l (WrsNode.empty m : WrsNode (Entry α l)) p = none := by
  cases l <;> simp [slot, WrsNode.empty]

/-- At level 0, a node whose slot `b` now gives `leaf` and whose other slots
are as in `n` has the leaves of `n` but `leaf` at `b`. -/
theorem slot_zero_update {n n' : WrsNode (Entry α 0)} {b : Fin wrsBranches} {leaf : Option (α × Int)}
    (hb : ((n'.items b).map fun item => (item, n'.weights b)) = leaf)
    (hother : ∀ b', b' ≠ b → n'.items b' = n.items b' ∧ n'.weights b' = n.weights b') :
    slot 0 n' = Function.update (slot 0 n) b leaf := by
  have hb8 : (b : Nat) < 8 := b.isLt
  funext p
  by_cases hp : p < 8
  · by_cases hpb : p = b
    · subst hpb
      rw [Function.update_self, slot_zero, hb]
    · have hne : (⟨p, hp⟩ : Fin wrsBranches) ≠ b := fun h => hpb (congrArg Fin.val h)
      obtain ⟨hi, hw⟩ := hother _ hne
      rw [Function.update_of_ne hpb, slot, slot, dif_pos hp, dif_pos hp, hi, hw]
  · rw [Function.update_of_ne (by omega), slot, slot, dif_neg hp, dif_neg hp]

/-- At level `l + 1`, a node whose branch `b` now has the leaves of the old
branch but `leaf` at `i`, and whose other branches are as in `n`, has the
leaves of `n` but `leaf` at `8 ^ (l + 1) * b + i`. -/
theorem slot_succ_update {n n' : WrsNode (Entry α (l + 1))} {b : Fin wrsBranches} {i : Nat}
    (hi : i < 8 ^ (l + 1)) {leaf : Option (α × Int)}
    (hb : ∀ j, ((n'.items b).bind fun c => slot l c j) =
      Function.update (fun j => (n.items b).bind fun c => slot l c j) i leaf j)
    (hother : ∀ b', b' ≠ b → n'.items b' = n.items b') :
    slot (l + 1) n' = Function.update (slot (l + 1) n) (8 ^ (l + 1) * b + i) leaf := by
  have hM := pow_eight_pos (l + 1)
  have hb8 : (b : Nat) < 8 := b.isLt
  have h8 : 8 ^ (l + 1 + 1) = 8 ^ (l + 1) * 8 := pow_succ 8 (l + 1)
  funext p
  -- every position is a branch and a position below it
  obtain ⟨q, j, hj, rfl⟩ : ∃ q j, j < 8 ^ (l + 1) ∧ p = 8 ^ (l + 1) * q + j :=
    ⟨p / 8 ^ (l + 1), p % 8 ^ (l + 1), Nat.mod_lt _ hM, (Nat.div_add_mod _ _).symm⟩
  by_cases hq : q < 8
  · have hslot := slot_succ n' ⟨q, hq⟩ hj
    have hslot' := slot_succ n ⟨q, hq⟩ hj
    simp only at hslot hslot'
    by_cases hqb : q = b
    · subst hqb
      rw [hslot, hb j]
      by_cases hji : j = i
      · subst hji
        rw [Function.update_self, Function.update_self]
      · rw [Function.update_of_ne hji, Function.update_of_ne (by omega), hslot']
    · have hne : (⟨q, hq⟩ : Fin wrsBranches) ≠ b := fun h => hqb (congrArg Fin.val h)
      have hpos : 8 ^ (l + 1) * q + j ≠ 8 ^ (l + 1) * b + i := by
        intro h
        have := congrArg (· / 8 ^ (l + 1)) h
        simp only [Nat.mul_add_div hM, Nat.div_eq_of_lt hj, Nat.div_eq_of_lt hi] at this
        omega
      rw [Function.update_of_ne hpos, hslot, hslot', hother _ hne]
  · -- past the last branch there are no leaves
    have hq' := Nat.mul_le_mul_left (8 ^ (l + 1)) (Nat.le_of_not_lt hq)
    have hb' := Nat.mul_le_mul_left (8 ^ (l + 1)) (Nat.succ_le_of_lt hb8)
    rw [Nat.mul_succ] at hb'
    rw [Function.update_of_ne (by omega), slot_eq_none n' (by omega), slot_eq_none n (by omega)]

end Leaves

/-! ### Well-formed nodes -/

/-- The items below a slot: one for an item, the node's count for a node. -/
def count : (l : Nat) → Option (Entry α l) → Nat
  | _, none => 0
  | 0, some _ => 1
  | _ + 1, some c => WrsNode.itemCnt c

/-- The bookkeeping of a node of level `l` against its branches. -/
structure Tallied (l : Nat) (n : WrsNode (Entry α l)) : Prop where
  maxItems_eq : n.maxItems = 8 ^ (l + 1)
  sumWeight_eq : n.sumWeight = ∑ b, n.weights b
  itemCnt_eq : n.itemCnt = ∑ b, count l (n.items b)

/-- A well-formed node: the bookkeeping of every node holds, a free slot
weighs nothing, an item weighs more than nothing, and the weight of a branch
is its subtree's sum. -/
def WF : (l : Nat) → WrsNode (Entry α l) → Prop
  | 0, n => Tallied 0 n ∧
      ∀ b, (n.items b = none → n.weights b = 0) ∧ ((n.items b).isSome → 0 < n.weights b)
  | l + 1, n => Tallied (l + 1) n ∧
      ∀ b, (n.items b = none → n.weights b = 0) ∧
        ∀ c, n.items b = some c → WF l c ∧ n.weights b = WrsNode.sumWeight c

section WF

variable {l : Nat} {n : WrsNode (Entry α l)}

theorem WF.tallied (h : WF l n) : Tallied l n := by
  cases l <;> exact h.1

/-- A branch of a node of level `l + 1` has room for `8 ^ (l + 1)` items. -/
theorem Tallied.maxItems_div {n : WrsNode (Entry α (l + 1))} (ht : Tallied (l + 1) n) :
    n.maxItems / wrsBranches = 8 ^ (l + 1) := by
  rw [ht.maxItems_eq, pow_succ]
  simp

theorem WF.weight_none (h : WF l n) {b : Fin wrsBranches} (hb : n.items b = none) :
    n.weights b = 0 := by
  cases l
  · exact (h.2 b).1 hb
  · exact (h.2 b).1 hb

theorem WF.child {n : WrsNode (Entry α (l + 1))} (h : WF (l + 1) n) {b : Fin wrsBranches}
    {c : WrsNode (Entry α l)} (hb : n.items b = some c) : WF l c ∧ n.weights b = c.sumWeight :=
  (h.2 b).2 c hb

theorem WF.empty (l : Nat) : WF l (WrsNode.empty (8 ^ (l + 1)) : WrsNode (Entry α l)) := by
  have htally : Tallied l (WrsNode.empty (8 ^ (l + 1)) : WrsNode (Entry α l)) :=
    ⟨rfl, by simp [WrsNode.empty], by simp [WrsNode.empty, count]⟩
  cases l
  · exact ⟨htally, fun _ => ⟨fun _ => rfl, by simp [WrsNode.empty]⟩⟩
  · exact ⟨htally, fun _ => ⟨fun _ => rfl, fun c hc => by cases hc⟩⟩

/-- A node holds at most the items it has room for. -/
theorem WF.itemCnt_le (h : WF l n) : n.itemCnt ≤ n.maxItems := by
  induction l with
  | zero =>
    have ht := h.tallied
    have hle : ∑ b, count 0 (n.items b) ≤ ∑ _b : Fin wrsBranches, 1 :=
      Finset.sum_le_sum fun b _ => by cases n.items b <;> simp [count]
    rw [ht.itemCnt_eq, ht.maxItems_eq]
    simpa using hle
  | succ l ih =>
    have ht := h.tallied
    have hle : ∑ b, count (l + 1) (n.items b) ≤ ∑ _b : Fin wrsBranches, 8 ^ (l + 1) := by
      refine Finset.sum_le_sum fun b _ => ?_
      cases hb : n.items b with
      | none => simp [count]
      | some c =>
        have hc := (h.child hb).1
        have := ih hc
        rw [hc.tallied.maxItems_eq] at this
        exact this
    rw [ht.itemCnt_eq, ht.maxItems_eq, pow_succ]
    simpa [mul_comm] using hle

/-- An item weighs more than nothing. -/
theorem WF.slot_pos (h : WF l n) {p : Nat} {a : α} {w : Int} (hs : slot l n p = some (a, w)) :
    0 < w := by
  induction l generalizing p with
  | zero =>
    rw [slot] at hs
    split at hs
    · next hp =>
      cases hb : n.items ⟨p, hp⟩ with
      | none => rw [hb] at hs; cases hs
      | some x =>
        rw [hb] at hs
        cases hs
        exact (h.2 _).2 (by rw [hb]; rfl)
    · cases hs
  | succ l ih =>
    rw [slot] at hs
    split at hs
    · next hp =>
      cases hb : n.items ⟨p / 8 ^ (l + 1), hp⟩ with
      | none => rw [hb] at hs; cases hs
      | some c =>
        rw [hb] at hs
        exact ih (h.child hb).1 hs
    · cases hs

theorem WF.leafWeight_nonneg (h : WF l n) (p : Nat) : 0 ≤ leafWeight l n p := by
  unfold leafWeight
  cases hs : slot l n p with
  | none => exact le_refl 0
  | some aw => exact le_of_lt (h.slot_pos hs)

/-- The leaves below branch `b` of a node of level `l + 1` weigh what the
branch weight says, when the branch is free or its subtree weighs its
leaves. -/
theorem total_block (n : WrsNode (Entry α (l + 1))) (b : Fin wrsBranches)
    (hnone : n.items b = none → n.weights b = 0)
    (hsome : ∀ c, n.items b = some c → n.weights b = total (leafWeight l c) (List.range (8 ^ (l + 1)))) :
    total (leafWeight (l + 1) n) ((List.range (8 ^ (l + 1))).map (8 ^ (l + 1) * b + ·)) =
      n.weights b := by
  rw [total_map]
  cases hb : n.items b with
  | none =>
    rw [hnone hb, total_congr fun i hi => by
      rw [leafWeight, slot_succ n b (List.mem_range.mp hi), hb]]
    simp [total]
  | some c =>
    rw [hsome c hb]
    exact total_congr fun i hi => by rw [leafWeight, leafWeight, slot_succ n b (List.mem_range.mp hi), hb]; rfl

/-- A node's sum is the weight of its row of leaves. -/
theorem WF.sumWeight_eq_total (h : WF l n) :
    n.sumWeight = total (leafWeight l n) (List.range (8 ^ (l + 1))) := by
  induction l with
  | zero =>
    rw [h.tallied.sumWeight_eq, ← total_finRange, zero_add, pow_one, ← map_val_finRange, total_map]
    refine total_congr fun b _ => ?_
    rw [leafWeight, slot_zero]
    cases hb : n.items b with
    | none => exact h.weight_none hb
    | some x => rfl
  | succ l ih =>
    rw [h.tallied.sumWeight_eq, ← total_finRange, pow_succ 8 (l + 1), range_mul_eq_flatMap,
      total_flatMap]
    refine total_congr fun b _ => ?_
    refine (total_block n b h.weight_none fun c hc => ?_).symm
    obtain ⟨hwf, hw⟩ := h.child hc
    rw [hw, ih hwf]

end WF

/-! ### `insert` -/

/-- `n'` is `n` with the leaf at position `p` replaced by `leaf`, and well
formed. -/
structure Replaced (l : Nat) (n n' : WrsNode (Entry α l)) (p : Nat) (leaf : Option (α × Int)) :
    Prop where
  wf : WF l n'
  slot_eq : slot l n' = Function.update (slot l n) p leaf
  lt : p < 8 ^ (l + 1)

section Insert

variable {l : Nat}

theorem firstBranch_eq_some {taken : Fin wrsBranches → Bool} {b : Fin wrsBranches}
    (h : firstBranch taken = some b) : taken b = false := by
  simpa using List.find?_some h

theorem firstBranch_isSome {taken : Fin wrsBranches → Bool} (h : ∃ b, taken b = false) :
    ∃ b, firstBranch taken = some b := by
  obtain ⟨b, hb⟩ := h
  cases hf : firstBranch taken with
  | none =>
    rw [firstBranch, List.find?_eq_none] at hf
    exact absurd (hf b (List.mem_finRange b)) (by simp [hb])
  | some b' => exact ⟨b', rfl⟩

/-- Rewriting branch `b` keeps the bookkeeping when the node's sum moves with
the branch weight and its count with the branch's count. -/
theorem Tallied.update_branch {n n' : WrsNode (Entry α l)} (ht : Tallied l n) (b : Fin wrsBranches)
    (hmax : n'.maxItems = n.maxItems)
    (hitems : ∀ b', b' ≠ b → n'.items b' = n.items b')
    (hweights : ∀ b', b' ≠ b → n'.weights b' = n.weights b')
    (hsum : n'.sumWeight = n.sumWeight + (n'.weights b - n.weights b))
    (hcnt : n'.itemCnt + count l (n.items b) = n.itemCnt + count l (n'.items b)) :
    Tallied l n' := by
  have hw : n'.weights = Function.update n.weights b (n'.weights b) :=
    Function.eq_update_iff.mpr ⟨rfl, hweights⟩
  have hi : n'.items = Function.update n.items b (n'.items b) :=
    Function.eq_update_iff.mpr ⟨rfl, hitems⟩
  have hsum' := sum_update_add (fun _ (y : Int) => y) n.weights b (n'.weights b)
  have hcnt' := sum_update_add (fun _ => count l) n.items b (n'.items b)
  rw [← hw] at hsum'
  rw [← hi] at hcnt'
  refine ⟨hmax.trans ht.maxItems_eq, ?_, ?_⟩
  · rw [hsum, ht.sumWeight_eq]
    omega
  · rw [ht.itemCnt_eq] at hcnt
    omega

theorem Tallied.place {n : WrsNode (Entry α l)} (ht : Tallied l n) (b : Fin wrsBranches) (x : Entry α l)
    (weight : Int) (hcount : count l (some x) = count l (n.items b) + 1) :
    Tallied l (n.place b x weight) :=
  ht.update_branch b rfl (fun _ h => Function.update_of_ne h _ _) (fun _ h => Function.update_of_ne h _ _)
    (by simp [WrsNode.place]) (by simp only [WrsNode.place, Function.update_self]; omega)

/-- A condition on every branch still holds after branch `b` is rewritten,
when it holds at `b`. -/
theorem branches_update {C : Type} {n n' : WrsNode C} (b : Fin wrsBranches) {Q : Option C → Int → Prop}
    (hitems : ∀ b', b' ≠ b → n'.items b' = n.items b')
    (hweights : ∀ b', b' ≠ b → n'.weights b' = n.weights b')
    (hn : ∀ b', Q (n.items b') (n.weights b')) (hb : Q (n'.items b) (n'.weights b)) :
    ∀ b', Q (n'.items b') (n'.weights b') := by
  intro b'
  by_cases h : b' = b
  · subst h
    exact hb
  · rw [hitems b' h, hweights b' h]
    exact hn b'

/-- Rewriting branch `b` of a well-formed node of level 0 keeps it well formed
when the count is kept and branch `b` is well formed. -/
theorem WF.update_zero {n n' : WrsNode (Entry α 0)} (h : WF 0 n) (b : Fin wrsBranches) (ht : Tallied 0 n')
    (hitems : ∀ b', b' ≠ b → n'.items b' = n.items b')
    (hweights : ∀ b', b' ≠ b → n'.weights b' = n.weights b')
    (hb : (n'.items b = none → n'.weights b = 0) ∧ ((n'.items b).isSome → 0 < n'.weights b)) :
    WF 0 n' :=
  ⟨ht, branches_update (Q := fun i w => (i = none → w = 0) ∧ (i.isSome → 0 < w)) b hitems hweights h.2 hb⟩

/-- Rewriting branch `b` of a well-formed node of level `l + 1` keeps it well
formed when the count is kept and branch `b` is well formed. -/
theorem WF.update_succ {n n' : WrsNode (Entry α (l + 1))} (h : WF (l + 1) n) (b : Fin wrsBranches)
    (ht : Tallied (l + 1) n')
    (hitems : ∀ b', b' ≠ b → n'.items b' = n.items b')
    (hweights : ∀ b', b' ≠ b → n'.weights b' = n.weights b')
    (hb : (n'.items b = none → n'.weights b = 0) ∧
      ∀ c, n'.items b = some c → WF l c ∧ n'.weights b = WrsNode.sumWeight c) :
    WF (l + 1) n' :=
  ⟨ht, branches_update (Q := fun i w => (i = none → w = 0) ∧ ∀ c, i = some c → WF l c ∧ w = WrsNode.sumWeight c)
    b hitems hweights h.2 hb⟩

/-- `insert` into a well-formed node with room puts the item in a free leaf. -/
theorem WrsNode.insert_spec {n : WrsNode (Entry α l)} (h : WF l n) (hroom : n.itemCnt < n.maxItems)
    (item : α) {weight : Int} (hw : 0 < weight) :
    ∃ n' p, WrsNode.insert l n item weight = some (n', p) ∧ slot l n p = none ∧
      Replaced l n n' p (some (item, weight)) ∧
      n'.sumWeight = n.sumWeight + weight ∧ n'.itemCnt = n.itemCnt + 1 := by
  induction l with
  | zero =>
    have ht := h.tallied
    -- the items do not fill the node, so some slot is free
    have hfree : ∃ b, (n.items b).isSome = false := by
      by_contra hall
      have hone : ∀ b, count 0 (n.items b) = 1 := fun b => by
        cases hb : n.items b with
        | none => exact absurd ⟨b, by rw [hb]; rfl⟩ hall
        | some _ => rfl
      rw [ht.itemCnt_eq, ht.maxItems_eq, Finset.sum_congr rfl fun b _ => hone b] at hroom
      simp at hroom
    obtain ⟨b, hfb⟩ := firstBranch_isSome hfree
    have hb : n.items b = none := by simpa using firstBranch_eq_some hfb
    have hwf : WF 0 (n.place b item weight) := by
      refine h.update_zero b (ht.place b item weight (by rw [hb]; rfl)) (fun _ h => Function.update_of_ne h _ _)
        (fun _ h => Function.update_of_ne h _ _) ?_
      simp only [WrsNode.place, Function.update_self, h.weight_none hb]
      exact ⟨fun h => (by cases h), fun _ => by omega⟩
    refine ⟨n.place b item weight, b, ?_, ?_, ⟨hwf, ?_, ?_⟩, rfl, rfl⟩
    · simp only [WrsNode.insert, hfb]
    · rw [slot_zero, hb]
      rfl
    · refine slot_zero_update ?_ fun b' hb' => ?_
      · simp only [WrsNode.place, Function.update_self, h.weight_none hb, zero_add]
        rfl
      · simp only [WrsNode.place, Function.update_of_ne hb', and_self]
    · exact b.isLt
  | succ l ih =>
    have ht := h.tallied
    -- the subtrees do not all fill up, so some branch is free or has room
    have hfree : ∃ b, ((n.items b).any fun c => WrsNode.itemCnt c == WrsNode.maxItems c) = false := by
      by_contra hall
      have hfull : ∀ b, count (l + 1) (n.items b) = 8 ^ (l + 1) := fun b => by
        cases hb : n.items b with
        | none => exact absurd ⟨b, by rw [hb]; rfl⟩ hall
        | some c =>
          have hc : (WrsNode.itemCnt c == WrsNode.maxItems c) = true := by
            by_contra hne
            exact hall ⟨b, by rw [hb]; simpa using hne⟩
          rw [count, beq_iff_eq.mp hc, (h.child hb).1.tallied.maxItems_eq]
      rw [ht.itemCnt_eq, ht.maxItems_eq, Finset.sum_congr rfl fun b _ => hfull b, Finset.sum_const,
        Finset.card_univ, Fintype.card_fin, smul_eq_mul, pow_succ 8 (l + 1)] at hroom
      change 8 * _ < _ at hroom
      omega
    obtain ⟨b, hfb⟩ := firstBranch_isSome hfree
    have hnotfull := firstBranch_eq_some hfb
    -- the subtree the item goes into: the one at `b`, or a new one
    obtain ⟨sub, hsub⟩ : ∃ sub : WrsNode (Entry α l),
        (n.items b).getD (WrsNode.empty (n.maxItems / wrsBranches)) = sub := ⟨_, rfl⟩
    have hbelow : WF l sub ∧ sub.itemCnt < sub.maxItems ∧ count (l + 1) (n.items b) = sub.itemCnt ∧
        n.weights b = sub.sumWeight ∧ ∀ j, ((n.items b).bind fun c => slot l c j) = slot l sub j := by
      cases hb : n.items b with
      | none =>
        rw [hb, Option.getD_none, ht.maxItems_div] at hsub
        subst hsub
        exact ⟨WF.empty l, by simp [WrsNode.empty], rfl, h.weight_none hb, fun j => by simp⟩
      | some c =>
        rw [hb, Option.getD_some] at hsub
        subst hsub
        obtain ⟨hc, hwc⟩ := h.child hb
        have hne : c.itemCnt ≠ c.maxItems := by
          rw [hb] at hnotfull
          simpa using hnotfull
        exact ⟨hc, lt_of_le_of_ne hc.itemCnt_le hne, rfl, hwc, fun j => rfl⟩
    obtain ⟨hsubwf, hsubroom, hcount, hweight, hslots⟩ := hbelow
    obtain ⟨sub', i, hins, hfree', hrep, hsum, hcnt⟩ := ih hsubwf hsubroom
    have hwf : WF (l + 1) (n.place b sub' weight) := by
      refine h.update_succ b (ht.place b sub' weight (by rw [hcount, count, hcnt]))
        (fun _ h => Function.update_of_ne h _ _) (fun _ h => Function.update_of_ne h _ _) ?_
      simp only [WrsNode.place, Function.update_self]
      refine ⟨fun h => (by cases h), fun c hc => ?_⟩
      cases hc
      exact ⟨hrep.wf, by rw [hsum, hweight]⟩
    refine ⟨n.place b sub' weight, 8 ^ (l + 1) * b + i, ?_, ?_, ⟨hwf, ?_, ?_⟩, rfl, rfl⟩
    · simp only [WrsNode.insert, hfb, hsub, hins, hsubwf.tallied.maxItems_eq]
    · rw [slot_succ n b hrep.lt, hslots i, hfree']
    · refine slot_succ_update hrep.lt (fun j => ?_) fun b' hb' => ?_
      · have hfun : (fun j => (n.items b).bind fun c => slot l c j) = slot l sub := funext hslots
        simp only [WrsNode.place, Function.update_self, Option.bind_some]
        rw [hrep.slot_eq, hfun]
      · simp only [WrsNode.place, Function.update_of_ne hb']
    · have hb8 : (b : Nat) < 8 := b.isLt
      have hlt := hrep.lt
      have hb' := Nat.mul_le_mul_left (8 ^ (l + 1)) (Nat.succ_le_of_lt hb8)
      rw [Nat.mul_succ] at hb'
      rw [pow_succ 8 (l + 1)]
      omega

end Insert

/-! ### `setWeight` -/

section SetWeight

variable {l : Nat}

theorem Tallied.count_le {n : WrsNode (Entry α l)} (ht : Tallied l n) (b : Fin wrsBranches) :
    count l (n.items b) ≤ n.itemCnt := by
  rw [ht.itemCnt_eq]
  exact Finset.single_le_sum (f := fun b => count l (n.items b)) (fun _ _ => Nat.zero_le _)
    (Finset.mem_univ b)

/-- A leaf of a node of level `l + 1` is a leaf of the subtree at its branch. -/
theorem slot_succ_some {n : WrsNode (Entry α (l + 1))} {p : Nat} {x : α × Int}
    (hs : slot (l + 1) n p = some x) :
    ∃ (hb : p / 8 ^ (l + 1) < wrsBranches) (c : WrsNode (Entry α l)),
      n.items ⟨p / 8 ^ (l + 1), hb⟩ = some c ∧ slot l c (p % 8 ^ (l + 1)) = some x := by
  rw [slot] at hs
  split at hs
  · next hb =>
    cases hc : n.items ⟨p / 8 ^ (l + 1), hb⟩ with
    | none => rw [hc] at hs; cases hs
    | some c =>
      rw [hc] at hs
      exact ⟨hb, c, hc, hs⟩
  · cases hs

theorem slot_lt {n : WrsNode (Entry α l)} {p : Nat} {x : α × Int} (hs : slot l n p = some x) :
    p < 8 ^ (l + 1) := by
  by_contra hp
  rw [slot_eq_none n (Nat.le_of_not_lt hp)] at hs
  cases hs

/-- `setWeight` at the position of an item rewrites its leaf: the new weight,
or a free leaf for a weight of 0. -/
theorem WrsNode.setWeight_spec {n : WrsNode (Entry α l)} (h : WF l n) {p : Nat} {a : α} {old : Int}
    (hs : slot l n p = some (a, old)) {weight : Int} (hw : 0 ≤ weight) :
    ∃ n', WrsNode.setWeight l n p weight = some (n', weight - old) ∧
      Replaced l n n' p (if weight = 0 then none else some (a, weight)) ∧
      n'.sumWeight = n.sumWeight + (weight - old) ∧
      n'.itemCnt + (if weight = 0 then 1 else 0) = n.itemCnt := by
  have hplt := slot_lt hs
  induction l generalizing p with
  | zero =>
    have ht := h.tallied
    have hp : p < wrsBranches := by simpa using hplt
    have hsb := slot_zero n ⟨p, hp⟩
    simp only at hsb
    rw [hsb] at hs
    obtain ⟨hitem, rfl⟩ : n.items ⟨p, hp⟩ = some a ∧ n.weights ⟨p, hp⟩ = old := by
      cases hb : n.items ⟨p, hp⟩ with
      | none => rw [hb] at hs; cases hs
      | some x => rw [hb] at hs; cases hs; exact ⟨rfl, rfl⟩
    have hcnt : 1 ≤ n.itemCnt := by simpa [hitem, count] using ht.count_le ⟨p, hp⟩
    by_cases hw0 : weight = 0
    · -- the leaf is freed
      subst hw0
      refine ⟨{ n with
          weights := Function.update n.weights ⟨p, hp⟩ 0
          sumWeight := n.sumWeight + (0 - n.weights ⟨p, hp⟩)
          items := Function.update n.items ⟨p, hp⟩ none
          itemCnt := n.itemCnt - 1 }, ?_, ⟨h.update_zero ⟨p, hp⟩ ?_ (fun _ h => Function.update_of_ne h _ _)
          (fun _ h => Function.update_of_ne h _ _) (by simp), ?_, hplt⟩, rfl, ?_⟩
      · rw [WrsNode.setWeight, dif_pos hp]
        rfl
      · refine ht.update_branch ⟨p, hp⟩ rfl (fun b' hb' => Function.update_of_ne hb' _ _)
          (fun b' hb' => Function.update_of_ne hb' _ _) (by simp) ?_
        simp only [Function.update_self, hitem, count]
        omega
      · refine slot_zero_update (b := ⟨p, hp⟩) (by simp) fun b' hb' => ?_
        simp only [Function.update_of_ne hb', and_self]
      · simp only [if_true]
        omega
    · -- the leaf keeps its item, with the new weight
      have hpos : 0 < weight := lt_of_le_of_ne hw (Ne.symm hw0)
      refine ⟨{ n with
          weights := Function.update n.weights ⟨p, hp⟩ weight
          sumWeight := n.sumWeight + (weight - n.weights ⟨p, hp⟩) }, ?_,
          ⟨h.update_zero ⟨p, hp⟩ ?_ (fun _ _ => rfl) (fun _ h => Function.update_of_ne h _ _)
            (by simp [hitem, hpos]), ?_, hplt⟩, rfl, by simp [hw0]⟩
      · simp only [WrsNode.setWeight, dif_pos hp, if_neg hw0]
      · exact ht.update_branch ⟨p, hp⟩ rfl (fun _ _ => rfl)
          (fun b' hb' => Function.update_of_ne hb' _ _) (by simp) (by simp)
      · refine slot_zero_update (b := ⟨p, hp⟩) (by simp [hitem, hw0]) fun b' hb' => ?_
        simp only [Function.update_of_ne hb', and_self]
  | succ l ih =>
    have ht := h.tallied
    obtain ⟨hb, c, hc, hsc⟩ := slot_succ_some hs
    obtain ⟨hcwf, hcw⟩ := h.child hc
    set b : Fin wrsBranches := ⟨p / 8 ^ (l + 1), hb⟩ with hbdef
    obtain ⟨c', hcode, hrep, hsum, hcnt⟩ := ih hcwf hsc (Nat.mod_lt _ (pow_eight_pos _))
    have hcount : c.itemCnt ≤ n.itemCnt := by simpa [hc, count] using ht.count_le b
    have hsub : p - p / 8 ^ (l + 1) * 8 ^ (l + 1) = p % 8 ^ (l + 1) := by
      rw [Nat.mod_eq_sub_mul_div, Nat.mul_comm]
    let n₁ : WrsNode (Entry α (l + 1)) := { n with
      items := Function.update n.items b (some c')
      weights := Function.update n.weights b (n.weights b + (weight - old))
      sumWeight := n.sumWeight + (weight - old) }
    have hslots : slot (l + 1) n₁ = Function.update (slot (l + 1) n) p
        (if weight = 0 then none else some (a, weight)) := by
      have hupd : slot (l + 1) n₁ = Function.update (slot (l + 1) n) (8 ^ (l + 1) * b + p % 8 ^ (l + 1))
          (if weight = 0 then none else some (a, weight)) :=
        slot_succ_update (Nat.mod_lt p (pow_eight_pos (l + 1)))
          (fun j => by simp only [n₁, Function.update_self, Option.bind_some, hc, hrep.slot_eq])
          fun b' hb' => Function.update_of_ne hb' _ _
      rwa [hbdef, Nat.div_add_mod] at hupd
    -- whatever the count, the node after the call is well formed when it is kept
    have hwf : ∀ cnt, cnt + count (l + 1) (n.items b) = n.itemCnt + count (l + 1) (n₁.items b) →
        WF (l + 1) { n₁ with itemCnt := cnt } := by
      intro cnt hcnt'
      refine h.update_succ b (ht.update_branch b rfl (fun b' hb' => Function.update_of_ne hb' _ _)
        (fun b' hb' => Function.update_of_ne hb' _ _) (by simp [n₁]) hcnt')
        (fun _ h => Function.update_of_ne h _ _) (fun _ h => Function.update_of_ne h _ _) ?_
      simp only [n₁, Function.update_self]
      refine ⟨fun h => (by cases h), fun c'' hc'' => ?_⟩
      cases hc''
      exact ⟨hrep.wf, by rw [hsum, hcw]⟩
    by_cases hw0 : weight = 0
    · rw [if_pos hw0] at hcnt
      refine ⟨{ n₁ with itemCnt := n.itemCnt - 1 }, ?_, ⟨hwf _ ?_, hslots, slot_lt hs⟩,
        rfl, ?_⟩
      · simp only [WrsNode.setWeight, ht.maxItems_div, if_neg (pow_eight_pos (l + 1)).ne', dif_pos hb, ← hbdef, hc,
          hsub, hcode, if_pos hw0]
        rfl
      · simp only [n₁, Function.update_self, hc, count]
        omega
      · rw [if_pos hw0]
        show n.itemCnt - 1 + 1 = n.itemCnt
        omega
    · rw [if_neg hw0] at hcnt
      refine ⟨n₁, ?_, ⟨hwf _ ?_, hslots, slot_lt hs⟩, rfl, ?_⟩
      · simp only [WrsNode.setWeight, ht.maxItems_div, if_neg (pow_eight_pos (l + 1)).ne', dif_pos hb, ← hbdef, hc,
          hsub, hcode, if_neg hw0]
        rfl
      · simp only [n₁, Function.update_self, hc, count]
        omega
      · rw [if_neg hw0, Nat.add_zero]

end SetWeight

/-! ### `choose` -/

section Choose

variable {l : Nat}

/-- On a well-formed node, `choose` is `pick` on the row of leaves weighted by
their weights. -/
theorem WrsNode.choose_eq {n : WrsNode (Entry α l)} (h : WF l n) {v : Int} (h0 : 0 ≤ v) :
    WrsNode.choose l n v =
      (pick (leafWeight l n) (List.range (8 ^ (l + 1))) v).bind fun r => slot l n r.1 := by
  induction l generalizing v with
  | zero =>
    -- the row of leaves is the row of branches
    have hw : ∀ b ∈ List.finRange wrsBranches, leafWeight 0 n b = n.weights b := by
      intro b _
      rw [leafWeight, slot_zero]
      cases hb : n.items b with
      | none => exact (h.weight_none hb).symm
      | some x => rfl
    rw [zero_add, pow_one, ← map_val_finRange, pick_map, pick_congr hw, WrsNode.choose]
    cases pick n.weights (List.finRange wrsBranches) v with
    | none => rfl
    | some r => exact (slot_zero n r.1).symm
  | succ l ih =>
    -- the row of leaves is the rows of the branches one after the other
    have hblocks : ∀ b ∈ List.finRange wrsBranches,
        total (leafWeight (l + 1) n) ((List.range (8 ^ (l + 1))).map (8 ^ (l + 1) * b.val + ·)) =
          n.weights b := fun b _ =>
      total_block n b h.weight_none fun c hc => by
        obtain ⟨hwf, hw⟩ := h.child hc
        rw [hw, hwf.sumWeight_eq_total]
    rw [pow_succ 8 (l + 1), range_mul_eq_flatMap,
      pick_flatMap _ _ hblocks (fun _ _ e _ => h.leafWeight_nonneg e) h0, Option.bind_assoc,
      WrsNode.choose]
    cases hp : pick n.weights (List.finRange wrsBranches) v with
    | none => rfl
    | some r =>
      obtain ⟨b, v'⟩ := r
      obtain ⟨-, hv0, hvw⟩ := pick_spec h0 hp
      dsimp only
      -- the value falls in branch `b`, which therefore holds a subtree
      cases hc : n.items b with
      | none =>
        rw [h.weight_none hc] at hvw
        omega
      | some c =>
        have hw : ∀ j ∈ List.range (8 ^ (l + 1)),
            leafWeight (l + 1) n (8 ^ (l + 1) * b + j) = leafWeight l c j := fun j hj => by
          rw [leafWeight, leafWeight, slot_succ n b (List.mem_range.mp hj), hc]
          rfl
        simp only [Option.bind_some]
        rw [ih (h.child hc).1 hv0, pick_map, pick_congr hw, Option.bind_map]
        cases hq : pick (leafWeight l c) (List.range (8 ^ (l + 1))) v' with
        | none => rfl
        | some s =>
          obtain ⟨hs, -⟩ := pick_spec hv0 hq
          rw [Option.bind_some, Option.bind_some, Function.comp_apply, slot_succ n b (List.mem_range.mp hs),
            hc, Option.bind_some]

/-- A value below a well-formed node's sum chooses an item, without a panic. -/
theorem WrsNode.choose_isSome {n : WrsNode (Entry α l)} (h : WF l n) {v : Int} (h0 : 0 ≤ v)
    (hv : v < n.sumWeight) : (WrsNode.choose l n v).isSome := by
  rw [h.sumWeight_eq_total] at hv
  rw [WrsNode.choose_eq h h0]
  obtain ⟨r, hr⟩ := Option.isSome_iff_exists.mp (pick_isSome h0 hv)
  obtain ⟨-, hr0, hrw⟩ := pick_spec h0 hr
  -- a leaf the value falls in weighs something, so it holds an item
  rw [hr, Option.bind_some]
  cases hs : slot l n r.1 with
  | none =>
    rw [leafWeight, hs] at hrw
    exact absurd hrw (by simp; omega)
  | some x => rfl

/-- The values in `[0, sumWeight)` that choose `x` are as many as the leaves
holding `x` weigh. -/
theorem WrsNode.card_choose [DecidableEq α] {n : WrsNode (Entry α l)} (h : WF l n) (x : α) :
    (((Finset.Ico 0 n.sumWeight).filter fun v => (WrsNode.choose l n v).any fun r => r.1 == x).card :
        Int) =
      total (leafWeight l n) ((List.range (8 ^ (l + 1))).filter fun p => (slot l n p).any fun r => r.1 == x) := by
  have hfilter : ((Finset.Ico 0 n.sumWeight).filter fun v => (WrsNode.choose l n v).any fun r => r.1 == x) =
      (Finset.Ico 0 (total (leafWeight l n) (List.range (8 ^ (l + 1))))).filter fun v =>
        (pick (leafWeight l n) (List.range (8 ^ (l + 1))) v).any fun r =>
          (slot l n r.1).any fun r => r.1 == x := by
    rw [← h.sumWeight_eq_total]
    refine Finset.filter_congr fun v hv => ?_
    rw [WrsNode.choose_eq h (Finset.mem_Ico.mp hv).1, Option.any_bind]
    exact Iff.rfl
  rw [hfilter, card_pick (fun p => (slot l n p).any fun r => r.1 == x)
    fun p (_ : p ∈ List.range (8 ^ (l + 1))) => h.leafWeight_nonneg p]

end Choose

end GoEthereum.Les.RandSelect
