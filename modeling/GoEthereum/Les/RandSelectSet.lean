import GoEthereum.Les.RandSelect

/-!
The set that a `weightedRandomSelect` keeps. Each item of the set sits at the
leaf its index `idx` names, with the weight stored for it, and no leaf holds
an item the index does not name (`Valid`): `idx` is a bijection from the
items of non-zero stored weight to the leaves that hold them.

`setWeight` with a weight of 0 or more keeps this, and stores the weight for
the item (`Valid.setWeight`): at the item's leaf when it is in the set, and
otherwise in a free leaf, after a new level over a full root. So does every
run of `update` and `remove` calls from a new set (`Valid.run`), whose stored
weights are those the calls last set (`weightsAfter`). The root's sum is then the total of the
stored weights, each value below it chooses an item, the values that choose
an item are as many as its weight, and `choose` with the weights as stored
returns the item its first draw falls on, and `nil` exactly for an empty set
(`update_remove_run_sound`).
-/

namespace GoEthereum.Les.RandSelect

open GoEthereum.WeightedPick

variable {α : Type}

namespace WeightedRandomSelect

/-- The weight stored for an item: the weight at its leaf, 0 for an item not
in the set. -/
def stored (w : WeightedRandomSelect α) (x : α) : Int :=
  match w.idx x with
  | none => 0
  | some p => leafWeight w.level w.root p

/-- The items of the set, in the order of their leaves. -/
def items (w : WeightedRandomSelect α) : List α :=
  (List.range (8 ^ (w.level + 1))).filterMap fun p => (slot w.level w.root p).map Prod.fst

/-- The set with the tree `root` and the index of `item` at `p` when `leaf`
holds something, removed when it does not. -/
def withLeaf (w : WeightedRandomSelect α) (root : WrsNode (Entry α w.level)) [DecidableEq α] (item : α)
    (p : Nat) (leaf : Option (α × Int)) : WeightedRandomSelect α :=
  { w with root := root, idx := Function.update w.idx item (leaf.map fun _ => p) }

/-- A call a user of the set makes: `update` of an item whose `Weight`
method returns `weight` at the call, or `remove`. -/
inductive Call (α : Type) where
  | update (item : α) (weight : Int)
  | remove (item : α)
  deriving Repr, DecidableEq

namespace Call

def item : Call α → α
  | update item _ => item
  | remove item => item

/-- The weight the call sets for its item: `remove` sets 0. -/
def weight : Call α → Int
  | update _ weight => weight
  | remove _ => 0

def run [DecidableEq α] : Call α → WeightedRandomSelect α → Option (WeightedRandomSelect α)
  | update item weight, w => w.update (fun _ => weight) item
  | remove item, w => w.remove item

/-- Both calls are `setWeight` calls. -/
theorem run_eq_setWeight [DecidableEq α] (c : Call α) (w : WeightedRandomSelect α) :
    c.run w = w.setWeight c.item c.weight := by
  cases c <;> rfl

end Call

/-- A consistent set. -/
structure Valid (w : WeightedRandomSelect α) : Prop where
  /-- The tree is well formed. -/
  wf : WF w.level w.root
  /-- An indexed item is at the leaf its index names. -/
  idx_slot : ∀ x p, w.idx x = some p → ∃ wt, slot w.level w.root p = some (x, wt)
  /-- An item at a leaf is indexed there. -/
  slot_idx : ∀ p x wt, slot w.level w.root p = some (x, wt) → w.idx x = some p

theorem Valid.new : Valid (newWeightedRandomSelect : WeightedRandomSelect α) where
  wf := WF.empty 0
  idx_slot _ _ h := by cases h
  slot_idx p _ _ h := by
    have hnone : slot 0 (WrsNode.empty wrsBranches : WrsNode (Entry α 0)) p = none := slot_empty _ _
    exact absurd (hnone.symm.trans h) (by simp)

theorem stored_of_idx {w : WeightedRandomSelect α} {x : α} {p : Nat} (h : w.idx x = some p) :
    w.stored x = leafWeight w.level w.root p := by
  rw [stored, h]

theorem stored_of_idx_none {w : WeightedRandomSelect α} {x : α} (h : w.idx x = none) :
    w.stored x = 0 := by
  rw [stored, h]

section Valid

variable {w : WeightedRandomSelect α}

/-- The leaf an item is indexed at holds it with its stored weight. -/
theorem Valid.slot_stored (hv : Valid w) {x : α} {p : Nat} (h : w.idx x = some p) :
    slot w.level w.root p = some (x, w.stored x) := by
  obtain ⟨wt, hs⟩ := hv.idx_slot x p h
  rw [hs, stored_of_idx h, leafWeight, hs]
  rfl

/-- A leaf holds its item with the item's stored weight. -/
theorem Valid.stored_of_slot (hv : Valid w) {p : Nat} {x : α} {wt : Int}
    (hs : slot w.level w.root p = some (x, wt)) : w.stored x = wt := by
  rw [stored_of_idx (hv.slot_idx p x wt hs), leafWeight, hs]
  rfl

/-- The leaf that holds an item is the one its index names. -/
theorem Valid.holds_iff [DecidableEq α] (hv : Valid w) (x : α) (q : Nat) :
    ((slot w.level w.root q).any fun r => r.1 == x) = true ↔ w.idx x = some q := by
  cases hs : slot w.level w.root q with
  | none =>
    simp only [Option.any_none, Bool.false_eq_true, false_iff]
    intro hq
    obtain ⟨wt, hs'⟩ := hv.idx_slot x q hq
    rw [hs] at hs'
    cases hs'
  | some xw =>
    obtain ⟨x', wt⟩ := xw
    rw [Option.any_some, beq_iff_eq]
    constructor
    · rintro rfl
      exact hv.slot_idx q x' wt hs
    · intro hq
      obtain ⟨wt', hs'⟩ := hv.idx_slot x q hq
      rw [hs] at hs'
      cases hs'
      rfl

/-- The items of non-zero stored weight are the indexed ones. -/
theorem Valid.stored_ne_zero_iff (hv : Valid w) (x : α) : w.stored x ≠ 0 ↔ w.idx x ≠ none := by
  cases h : w.idx x with
  | none => simp [stored_of_idx_none h]
  | some p =>
    have hpos := hv.wf.slot_pos (hv.slot_stored h)
    simp only [ne_eq, reduceCtorEq, not_false_eq_true, iff_true]
    omega

/-- The root's sum is the total of the stored weights of the items. -/
theorem Valid.sumWeight_eq_sum_stored (hv : Valid w) :
    w.root.sumWeight = (w.items.map w.stored).sum := by
  rw [hv.wf.sumWeight_eq_total, items, ← total, total_filterMap]
  refine total_congr fun p _ => ?_
  rw [leafWeight]
  cases hs : slot w.level w.root p with
  | none => rfl
  | some xw =>
    obtain ⟨x, wt⟩ := xw
    rw [Option.map_some, Option.elim_some, Option.elim_some, hv.stored_of_slot hs]

/-- The set is empty exactly when the root's sum is 0. -/
theorem Valid.sumWeight_eq_zero_iff (hv : Valid w) : w.root.sumWeight = 0 ↔ ∀ x, w.stored x = 0 := by
  constructor
  · -- an item in the set would weigh more than nothing
    intro hzero x
    cases h : w.idx x with
    | none => exact stored_of_idx_none h
    | some p =>
      have hs := hv.slot_stored h
      have hpos := hv.wf.slot_pos hs
      have hle : leafWeight w.level w.root p ≤ w.root.sumWeight := by
        rw [hv.wf.sumWeight_eq_total]
        exact le_total_of_mem (fun q _ => hv.wf.leafWeight_nonneg q)
          (List.mem_range.mpr (slot_lt hs))
      rw [leafWeight, hs] at hle
      simp only [Option.elim_some] at hle
      omega
  · -- each leaf weighs what is stored for its item, which is 0
    intro hall
    rw [hv.wf.sumWeight_eq_total, total_congr fun p _ => show leafWeight w.level w.root p = 0 by
      rw [leafWeight]
      cases hs : slot w.level w.root p with
      | none => rfl
      | some xw => rw [Option.elim_some, ← hv.stored_of_slot hs, hall]]
    simp [total]

/-- Rewriting the leaf at `p`, where no item but `item` was, and moving the
index of `item` with it, keeps the set consistent and stores the new leaf's
weight for `item`. -/
theorem Valid.withLeaf [DecidableEq α] (hv : Valid w) {root : WrsNode (Entry α w.level)} {p : Nat}
    {item : α} {leaf : Option (α × Int)} (hrep : Replaced w.level w.root root p leaf)
    (hp : ∀ x wt, slot w.level w.root p = some (x, wt) → x = item)
    (hleaf : ∀ x wt, leaf = some (x, wt) → x = item)
    (hidx : ∀ q, w.idx item = some q → q = p) :
    Valid (w.withLeaf root item p leaf) ∧
      (w.withLeaf root item p leaf).stored = Function.update w.stored item (leaf.elim 0 Prod.snd) := by
  have hslot := hrep.slot_eq
  -- a leaf other than `p` holds an item other than `item` exactly as before
  have hother : ∀ x q, x ≠ item → w.idx x = some q → q ≠ p := fun x q hx hq hqp => by
    obtain ⟨wt, hs⟩ := hv.idx_slot x q hq
    exact hx (hp x wt (hqp ▸ hs))
  refine ⟨⟨hrep.wf, fun x q hq => ?_, fun q x wt hs => ?_⟩, ?_⟩
  · change Function.update w.idx item (leaf.map fun _ => p) x = some q at hq
    change ∃ wt, slot w.level root q = some (x, wt)
    by_cases hx : x = item
    · subst hx
      rw [Function.update_self] at hq
      cases hl : leaf with
      | none => rw [hl] at hq; cases hq
      | some xw =>
        rw [hl, Option.map_some] at hq
        cases hq
        obtain ⟨x', wt⟩ := xw
        obtain rfl := hleaf x' wt hl
        exact ⟨wt, by rw [hslot, Function.update_self, hl]⟩
    · rw [Function.update_of_ne hx] at hq
      rw [hslot, Function.update_of_ne (hother x q hx hq)]
      exact hv.idx_slot x q hq
  · change slot w.level root q = some (x, wt) at hs
    change Function.update w.idx item (leaf.map fun _ => p) x = some q
    rw [hslot] at hs
    by_cases hq : q = p
    · subst hq
      rw [Function.update_self] at hs
      obtain rfl := hleaf x wt hs
      rw [Function.update_self, hs]
      rfl
    · rw [Function.update_of_ne hq] at hs
      have hidx' := hv.slot_idx q x wt hs
      have hx : x ≠ item := fun hx => hq (hidx q (hx ▸ hidx'))
      rw [Function.update_of_ne hx, hidx']
  · funext x
    by_cases hx : x = item
    · subst hx
      rw [Function.update_self]
      cases hl : leaf with
      | none =>
        apply stored_of_idx_none
        simp [WeightedRandomSelect.withLeaf]
      | some xw =>
        rw [stored_of_idx (p := p) (by simp [WeightedRandomSelect.withLeaf]), leafWeight]
        change (slot w.level root p).elim 0 Prod.snd = _
        rw [hslot, Function.update_self, hl]
    · rw [Function.update_of_ne hx]
      have hidx' : (w.withLeaf root item p leaf).idx x = w.idx x := Function.update_of_ne hx _ _
      cases hq : w.idx x with
      | none => rw [stored_of_idx_none (hidx'.trans hq), stored_of_idx_none hq]
      | some q =>
        rw [stored_of_idx (hidx'.trans hq), stored_of_idx hq, leafWeight, leafWeight]
        change (slot w.level root q).elim 0 Prod.snd = _
        rw [hslot, Function.update_of_ne (hother x q hx hq)]

end Valid

/-! ### A new root over the old one

`addLevel` puts the root under a new one, at its branch 0: a node with a
single child has that child's leaves and is well formed when the child is. -/

section Grow

variable {l : Nat} {n : WrsNode (Entry α (l + 1))} {c : WrsNode (Entry α l)}

theorem slot_of_single (hitems : n.items = Function.update (fun _ => none) 0 (some c)) :
    slot (l + 1) n = slot l c := by
  have hM := pow_eight_pos (l + 1)
  funext p
  by_cases hp : p < 8 ^ (l + 1)
  · have h := slot_succ n 0 hp
    simp only [Fin.isValue, Fin.coe_ofNat_eq_mod, Nat.zero_mod, Nat.mul_zero, Nat.zero_add] at h
    rw [h, hitems, Function.update_self, Option.bind_some]
  · -- past the child's leaves, the node's other branches are free
    rw [slot_eq_none c (Nat.le_of_not_lt hp), slot]
    split
    · next hq =>
      have hne : (⟨p / 8 ^ (l + 1), hq⟩ : Fin wrsBranches) ≠ 0 := by
        intro h0
        have h1 : 1 ≤ p / 8 ^ (l + 1) := (Nat.le_div_iff_mul_le hM).mpr (by omega)
        have := congrArg Fin.val h0
        simp only [Fin.isValue, Fin.coe_ofNat_eq_mod, Nat.zero_mod] at this
        omega
      rw [hitems, Function.update_of_ne hne]
      rfl
    · rfl

theorem WF.of_single (hc : WF l c) (hitems : n.items = Function.update (fun _ => none) 0 (some c))
    (hweights : n.weights = Function.update (fun _ => 0) 0 c.sumWeight) (hsum : n.sumWeight = c.sumWeight)
    (hcnt : n.itemCnt = c.itemCnt) (hmax : n.maxItems = c.maxItems * wrsBranches) : WF (l + 1) n := by
  have hs := sum_update_add (fun _ (y : Int) => y) (fun _ : Fin wrsBranches => (0 : Int)) 0 c.sumWeight
  have hn := sum_update_add (fun _ => count (l + 1)) (fun _ : Fin wrsBranches => none) 0 (some c)
  have hnone : count (l + 1) (none : Option (Entry α (l + 1))) = 0 := rfl
  have hsome : count (l + 1) (some c) = c.itemCnt := rfl
  rw [hnone, hsome] at hn
  simp only [Finset.sum_const_zero, add_zero, zero_add] at hs hn
  refine ⟨⟨?_, by rw [hsum, hweights, hs], by rw [hcnt, hitems, hn]⟩, fun b => ?_⟩
  · rw [hmax, hc.tallied.maxItems_eq, pow_succ 8 (l + 1)]
  · rw [hitems, hweights]
    by_cases hb : b = 0
    · subst hb
      rw [Function.update_self, Function.update_self]
      exact ⟨(fun h => by cases h), fun c' hc' => by cases hc'; exact ⟨hc, rfl⟩⟩
    · rw [Function.update_of_ne hb, Function.update_of_ne hb]
      exact ⟨fun _ => rfl, fun c' hc' => by cases hc'⟩

end Grow

section Valid

variable {w : WeightedRandomSelect α}

theorem Valid.addLevel (hv : Valid w) : Valid w.addLevel ∧ w.addLevel.stored = w.stored := by
  have hslot : slot (w.level + 1) w.addLevel.root = slot w.level w.root :=
    slot_of_single (n := w.addLevel.root) rfl
  have hwf : WF (w.level + 1) w.addLevel.root := WF.of_single hv.wf rfl rfl rfl rfl rfl
  refine ⟨⟨hwf, fun x p hp => ?_, fun p x wt hs => ?_⟩, ?_⟩
  · change ∃ wt, slot (w.level + 1) w.addLevel.root p = some (x, wt)
    rw [hslot]
    exact hv.idx_slot x p hp
  · change slot (w.level + 1) w.addLevel.root p = some (x, wt) at hs
    rw [hslot] at hs
    exact hv.slot_idx p x wt hs
  · funext x
    cases h : w.idx x with
    | none => rw [stored_of_idx_none h, stored_of_idx_none (w := w.addLevel) h]
    | some p =>
      rw [stored_of_idx h, stored_of_idx (w := w.addLevel) h, leafWeight, leafWeight]
      change (slot (w.level + 1) w.addLevel.root p).elim 0 Prod.snd = _
      rw [hslot]

/-- The item a value chooses is in the set, with its stored weight. -/
theorem Valid.choose_stored (hv : Valid w) {v : Int} (h0 : 0 ≤ v) {x : α} {wt : Int}
    (h : WrsNode.choose w.level w.root v = some (x, wt)) : w.idx x ≠ none ∧ wt = w.stored x := by
  rw [WrsNode.choose_eq hv.wf h0, Option.bind_eq_some_iff] at h
  obtain ⟨r, -, hs⟩ := h
  exact ⟨by rw [hv.slot_idx r.1 x wt hs]; exact Option.some_ne_none _, (hv.stored_of_slot hs).symm⟩

variable [DecidableEq α]

/-- A new item goes into a free leaf of a consistent set with room. -/
theorem Valid.insert (hv : Valid w) (hroom : w.root.itemCnt < w.root.maxItems) {item : α}
    (hidx : w.idx item = none) {weight : Int} (hw : 0 < weight) :
    ∃ root i, WrsNode.insert w.level w.root item weight = some (root, i) ∧
      Valid (w.withLeaf root item i (some (item, weight))) ∧
      (w.withLeaf root item i (some (item, weight))).stored = Function.update w.stored item weight := by
  obtain ⟨root, i, hcode, hfree, hrep, -, -⟩ := WrsNode.insert_spec hv.wf hroom item hw
  exact ⟨root, i, hcode, hv.withLeaf hrep (fun x wt h => by rw [hfree] at h; cases h)
    (fun x wt h => by cases h; rfl) (fun q hq => by rw [hidx] at hq; cases hq)⟩

/-- `setWeight` with a weight of 0 or more keeps the set consistent and stores
the weight for the item. -/
theorem Valid.setWeight (hv : Valid w) (item : α) {weight : Int} (hw : 0 ≤ weight) :
    ∃ w', w.setWeight item weight = some w' ∧ Valid w' ∧
      w'.stored = Function.update w.stored item weight := by
  cases hidx : w.idx item with
  | some p =>
    -- the item is in the set: its leaf takes the new weight, or is freed
    have hs := hv.slot_stored hidx
    obtain ⟨root, hcode, hrep, -, -⟩ := WrsNode.setWeight_spec hv.wf hs hw
    have hleaf : ∀ x wt, (if weight = 0 then none else some (item, weight)) = some (x, wt) → x = item :=
      fun x wt h => by
        split at h
        · cases h
        · cases h
          rfl
    obtain ⟨hvalid, hstored⟩ := hv.withLeaf hrep (fun x wt h => by rw [hs] at h; cases h; rfl) hleaf
      (fun q hq => by rw [hidx] at hq; cases hq; rfl)
    -- the code keeps the index of an item it does not remove
    have hsame : w.withLeaf root item p (if weight = 0 then none else some (item, weight)) =
        { w with root := root, idx := if weight = 0 then Function.update w.idx item none else w.idx } := by
      by_cases hw0 : weight = 0
      · simp only [if_pos hw0]
        rfl
      · have hi : Function.update w.idx item (some p) = w.idx := by rw [← hidx, Function.update_eq_self]
        simp only [if_neg hw0]
        exact congrArg (fun i => ({ w with root := root, idx := i } : WeightedRandomSelect α)) hi
    refine ⟨_, ?_, hsame ▸ hvalid, ?_⟩
    · simp only [WeightedRandomSelect.setWeight, hidx, hcode]
    · rw [← hsame, hstored]
      by_cases hw0 : weight = 0 <;> simp [hw0]
  | none =>
    by_cases hw0 : weight = 0
    · -- nothing to remove
      refine ⟨w, by simp [WeightedRandomSelect.setWeight, hidx, hw0], hv, ?_⟩
      rw [hw0, ← stored_of_idx_none hidx, Function.update_eq_self]
    · -- a new item: in a free leaf of the root, grown first if it is full
      have hpos : 0 < weight := lt_of_le_of_ne hw (Ne.symm hw0)
      obtain ⟨w₁, hw₁, hv₁, hst₁, hroom⟩ : ∃ w₁,
          (if w.root.itemCnt = w.root.maxItems then w.addLevel else w) = w₁ ∧ Valid w₁ ∧
            w₁.stored = w.stored ∧ w₁.root.itemCnt < w₁.root.maxItems := by
        by_cases hfull : w.root.itemCnt = w.root.maxItems
        · have hmax := hv.wf.tallied.maxItems_eq
          have := pow_eight_pos (w.level + 1)
          have hroom : w.root.itemCnt < w.root.maxItems * 8 := by omega
          exact ⟨_, if_pos hfull, hv.addLevel.1, hv.addLevel.2, hroom⟩
        · exact ⟨w, if_neg hfull, hv, rfl, lt_of_le_of_ne hv.wf.itemCnt_le hfull⟩
      have hidx₁ : w₁.idx item = none := by
        rw [← hw₁]
        split <;> exact hidx
      obtain ⟨root, i, hcode, hvalid, hstored⟩ := hv₁.insert hroom hidx₁ hpos
      refine ⟨_, ?_, hvalid, by rw [hstored, hst₁]⟩
      simp only [WeightedRandomSelect.setWeight, hidx, if_neg hw0]
      rw [hw₁, hcode]
      rfl

/-- Every run of `update` and `remove` calls with weights of 0 or more keeps
the set consistent; each call overwrites its item's stored weight. -/
theorem Valid.run (hv : Valid w) (calls : List (Call α)) (hcalls : ∀ c ∈ calls, 0 ≤ c.weight) :
    ∃ w', calls.foldlM (fun w c => c.run w) w = some w' ∧ Valid w' ∧
      w'.stored = calls.foldl (fun f c => Function.update f c.item c.weight) w.stored := by
  induction calls generalizing w with
  | nil => exact ⟨w, rfl, hv, rfl⟩
  | cons c calls ih =>
    obtain ⟨w₁, hstep, hv₁, hst₁⟩ := hv.setWeight c.item (hcalls c List.mem_cons_self)
    obtain ⟨w', hrun, hv', hst'⟩ := ih hv₁ fun c' hc' => hcalls c' (List.mem_cons_of_mem c hc')
    refine ⟨w', ?_, hv', ?_⟩
    · rw [List.foldlM_cons, Call.run_eq_setWeight, hstep]
      exact hrun
    · rw [hst', hst₁, List.foldl_cons]

/-- `choose` on a consistent set whose items still weigh what is stored for
them returns the item its first draw falls on. -/
theorem Valid.choose_of_stored (hv : Valid w) {Weight : α → Int}
    (hW : ∀ x, w.stored x ≠ 0 → Weight x = w.stored x) {val : Int} (r : Int) (draws : List (Int × Int))
    (h0 : 0 ≤ val) (hval : val < w.root.sumWeight) :
    ∃ x, WrsNode.choose w.level w.root val = some (x, w.stored x) ∧
      w.choose Weight ((val, r) :: draws) = some (some x, w) := by
  obtain ⟨⟨x, wt⟩, hc⟩ := Option.isSome_iff_exists.mp (WrsNode.choose_isSome hv.wf h0 hval)
  obtain ⟨hidx, rfl⟩ := hv.choose_stored h0 hc
  have hWx : Weight x = w.stored x := hW x ((hv.stored_ne_zero_iff x).mpr hidx)
  refine ⟨x, hc, ?_⟩
  rw [WeightedRandomSelect.choose, if_neg (by omega)]
  simp only [hc, hWx, ne_eq, not_true_eq_false, if_false, ge_iff_le, le_refl, true_or, if_true]

theorem choose_of_sumWeight_zero (Weight : α → Int) (draws : List (Int × Int))
    (h : w.root.sumWeight = 0) : w.choose Weight draws = some (none, w) := by
  rw [WeightedRandomSelect.choose.eq_def]
  exact if_pos h

end Valid

end WeightedRandomSelect

/-- The weights a run of calls sets: each call overwrites its item's weight,
and an item no call names weighs 0. -/
def weightsAfter [DecidableEq α] (calls : List (WeightedRandomSelect.Call α)) : α → Int :=
  calls.foldl (fun f c => Function.update f c.item c.weight) fun _ => 0

open WeightedRandomSelect in
/-- Over every run of `update` and `remove` calls with weights of 0 or more
from a new set: no call panics; the index is a
bijection from the items of non-zero stored weight to the leaves holding them
with their stored weights, and the tree is well formed; the stored weights
are those the calls last set; the root's sum is their total; every value
below it chooses an item, each item by as many values as its weight; and
`choose`, with the items weighing what is stored, returns `nil` for an empty
set and otherwise the item its first draw chooses. -/
theorem update_remove_run_sound [DecidableEq α] (calls : List (Call α))
    (hcalls : ∀ c ∈ calls, 0 ≤ c.weight) :
    ∃ w : WeightedRandomSelect α,
      calls.foldlM (fun w c => c.run w) newWeightedRandomSelect = some w ∧
      w.Valid ∧
      (∀ x, w.stored x ≠ 0 ↔ w.idx x ≠ none) ∧
      (∀ x p, w.idx x = some p → slot w.level w.root p = some (x, w.stored x)) ∧
      w.stored = weightsAfter calls ∧
      w.root.sumWeight = (w.items.map w.stored).sum ∧
      (∀ v, 0 ≤ v → v < w.root.sumWeight → (WrsNode.choose w.level w.root v).isSome) ∧
      (∀ x, (((Finset.Ico 0 w.root.sumWeight).filter fun v =>
          (WrsNode.choose w.level w.root v).any fun r => r.1 == x).card : Int) = w.stored x) ∧
      ∀ Weight : α → Int, (∀ x, w.stored x ≠ 0 → Weight x = w.stored x) →
        ((∀ x, w.stored x = 0) → ∀ draws, w.choose Weight draws = some (none, w)) ∧
        ∀ val r draws, 0 ≤ val → val < w.root.sumWeight →
          ∃ x, w.stored x ≠ 0 ∧ w.choose Weight ((val, r) :: draws) = some (some x, w) ∧
            (WrsNode.choose w.level w.root val).map Prod.fst = some x := by
  obtain ⟨w, hrun, hv, hst⟩ := Valid.new.run calls hcalls
  refine ⟨w, hrun, hv, hv.stored_ne_zero_iff, fun x p h => hv.slot_stored h, ?_,
    hv.sumWeight_eq_sum_stored, fun v h0 hv' => WrsNode.choose_isSome hv.wf h0 hv', fun x => ?_,
    fun Weight hW => ⟨fun hall draws => choose_of_sumWeight_zero Weight draws
      (hv.sumWeight_eq_zero_iff.mpr hall), fun val r draws h0 hval => ?_⟩⟩
  · rw [hst]
    rfl
  · -- the only leaf holding `x` is the one its index names, if it is in the set
    rw [WrsNode.card_choose hv.wf x]
    cases hidx : w.idx x with
    | none =>
      rw [stored_of_idx_none hidx, List.filter_eq_nil_iff.mpr fun q _ hq => ?_]
      · rfl
      · rw [hv.holds_iff, hidx] at hq
        cases hq
    | some p =>
      have hp := List.mem_range.mpr (slot_lt (hv.slot_stored hidx))
      rw [total_filter_of_unique List.nodup_range hp fun q _ => by
        rw [hv.holds_iff, hidx, Option.some_inj, eq_comm], stored_of_idx hidx]
  · obtain ⟨x, hc, hchoose⟩ := hv.choose_of_stored hW r draws h0 hval
    have hne := (hv.stored_ne_zero_iff x).mpr (hv.choose_stored h0 hc).1
    exact ⟨x, hne, hchoose, by rw [hc]; rfl⟩

/-- Two items added, weighing 5 and 3, and the first removed: the second is
stored with its weight, the first with none. -/
theorem update_remove_run_sound_three :
    ∃ w : WeightedRandomSelect Nat,
      ([.update 1 5, .update 2 3, .remove 1] : List (WeightedRandomSelect.Call Nat)).foldlM
        (fun w c => c.run w) newWeightedRandomSelect = some w ∧ w.stored 2 = 3 ∧ w.stored 1 = 0 := by
  obtain ⟨w, hrun, -, -, -, hst, -⟩ :=
    update_remove_run_sound ([.update 1 5, .update 2 3, .remove 1] : List (WeightedRandomSelect.Call Nat))
      (by decide)
  refine ⟨w, hrun, ?_, ?_⟩ <;> rw [hst] <;> decide

end GoEthereum.Les.RandSelect
