import Mathlib

/-!
Choosing among weighted entries by a value. The entries lie one after the
other on a line, each as long as its weight; a value in `[0, total)` falls in
exactly one of them, and `pick` finds it by skipping every entry whose weight
the value reaches, taking that weight off the value. A value drawn uniformly
from `[0, total)` then picks each entry with probability its weight over the
total: `card_pick` counts the values that pick the entries of a class.

A line cut into blocks is searched in two steps, the block and then the entry
within it (`pick_flatMap`): the search of a tree of partial sums, one level at
a time. `range_mul_eq_flatMap` cuts the positions below `M * k` into `k`
blocks of `M`.
-/

namespace GoEthereum.WeightedPick

variable {β γ : Type} (wt : β → Int)

/-- The entry a value falls in, with what is left of the value there. -/
def pick : List β → Int → Option (β × Int)
  | [], _ => none
  | e :: es, v => if v < wt e then some (e, v) else pick es (v - wt e)

/-- The length of the line. -/
def total (es : List β) : Int := (es.map wt).sum

theorem pick_cons (e : β) (es : List β) (v : Int) :
    pick wt (e :: es) v = if v < wt e then some (e, v) else pick wt es (v - wt e) := rfl

@[simp] theorem total_nil : total wt [] = 0 := rfl

@[simp] theorem total_cons (e : β) (es : List β) : total wt (e :: es) = wt e + total wt es := by
  simp [total]

@[simp] theorem total_append (xs ys : List β) :
    total wt (xs ++ ys) = total wt xs + total wt ys := by
  simp [total]

theorem total_map (g : γ → β) (es : List γ) : total wt (es.map g) = total (fun c => wt (g c)) es := by
  simp [total, Function.comp_def]

theorem total_flatMap (B : γ → List β) (is : List γ) :
    total wt (is.flatMap B) = total (fun i => total wt (B i)) is := by
  induction is with
  | nil => rfl
  | cons i is ih => rw [List.flatMap_cons, total_append, ih, total_cons]

/-- The line of the branches of a fixed-width node, as a sum over them. -/
theorem total_finRange {k : Nat} (f : Fin k → Int) : total f (List.finRange k) = ∑ b, f b :=
  (Fin.sum_univ_def f).symm

variable {wt}

theorem total_congr {wt' : β → Int} {es : List β} (h : ∀ e ∈ es, wt e = wt' e) :
    total wt es = total wt' es := by
  simp only [total]
  rw [List.map_congr_left h]

theorem total_nonneg {es : List β} (hnn : ∀ e ∈ es, 0 ≤ wt e) : 0 ≤ total wt es := by
  induction es with
  | nil => simp
  | cons e es ih =>
    have he := hnn e List.mem_cons_self
    have hes := ih fun x hx => hnn x (List.mem_cons_of_mem e hx)
    rw [total_cons]
    omega

theorem total_filterMap (f : γ → Option β) (es : List γ) :
    total wt (es.filterMap f) = total (fun c => (f c).elim 0 wt) es := by
  induction es with
  | nil => rfl
  | cons c es ih =>
    rw [List.filterMap_cons, total_cons]
    cases f c with
    | none => simp [ih]
    | some e => simp [ih]

/-- An entry weighs at most the line it is on. -/
theorem le_total_of_mem {es : List β} (hnn : ∀ e ∈ es, 0 ≤ wt e) {e : β} (he : e ∈ es) :
    wt e ≤ total wt es := by
  induction es with
  | nil => cases he
  | cons e' es ih =>
    have hes := total_nonneg fun x hx => hnn x (List.mem_cons_of_mem e' hx)
    rw [total_cons]
    rcases List.mem_cons.mp he with rfl | hmem
    · omega
    · have := ih (fun x hx => hnn x (List.mem_cons_of_mem e' hx)) hmem
      have := hnn e' List.mem_cons_self
      omega

/-- A class met at exactly one entry of a line without repeats weighs that
entry. -/
theorem total_filter_of_unique [DecidableEq β] {es : List β} (hnd : es.Nodup) {q : β → Bool} {e : β}
    (he : e ∈ es) (hq : ∀ x ∈ es, q x = true ↔ x = e) : total wt (es.filter q) = wt e := by
  have hfilter : es.filter q = es.filter fun x => x = e :=
    List.filter_congr fun x hx => by rw [Bool.eq_iff_iff, decide_eq_true_iff]; exact hq x hx
  rw [hfilter, List.filter_eq, List.count_eq_one_of_mem hnd he]
  simp [total]

theorem pick_congr {wt' : β → Int} {es : List β} (h : ∀ e ∈ es, wt e = wt' e) (v : Int) :
    pick wt es v = pick wt' es v := by
  induction es generalizing v with
  | nil => rfl
  | cons e es ih =>
    rw [pick_cons, pick_cons, h e List.mem_cons_self,
      ih (fun x hx => h x (List.mem_cons_of_mem e hx))]

theorem pick_map (g : γ → β) (es : List γ) (v : Int) :
    pick wt (es.map g) v = (pick (fun c => wt (g c)) es v).map fun r => (g r.1, r.2) := by
  induction es generalizing v with
  | nil => rfl
  | cons e es ih =>
    simp only [List.map_cons, pick_cons, ih]
    split_ifs <;> rfl

/-- A pick is an entry of the line, and the value left is a place within it. -/
theorem pick_spec {es : List β} {v r : Int} {e : β} (h0 : 0 ≤ v)
    (h : pick wt es v = some (e, r)) : e ∈ es ∧ 0 ≤ r ∧ r < wt e := by
  induction es generalizing v with
  | nil => cases h
  | cons e' es ih =>
    rw [pick_cons] at h
    split_ifs at h with hv
    · cases h
      exact ⟨List.mem_cons_self, h0, hv⟩
    · obtain ⟨hmem, hr⟩ := ih (by omega) h
      exact ⟨List.mem_cons_of_mem e' hmem, hr⟩

/-- A value on the line picks an entry. -/
theorem pick_isSome {es : List β} {v : Int} (h0 : 0 ≤ v) (hv : v < total wt es) :
    (pick wt es v).isSome := by
  induction es generalizing v with
  | nil => simp at hv; omega
  | cons e es ih =>
    rw [total_cons] at hv
    rw [pick_cons]
    split_ifs with he
    · rfl
    · exact ih (by omega) (by omega)

/-- A line of two parts: the first if the value falls short of its length,
the second, with that length taken off the value, otherwise. -/
theorem pick_append {xs : List β} (ys : List β) (hnn : ∀ e ∈ xs, 0 ≤ wt e) {v : Int}
    (h0 : 0 ≤ v) : pick wt (xs ++ ys) v =
      if v < total wt xs then pick wt xs v else pick wt ys (v - total wt xs) := by
  induction xs generalizing v with
  | nil => rw [List.nil_append, total_nil, if_neg (not_lt.mpr h0), sub_zero]
  | cons e es ih =>
    have hes := total_nonneg fun x hx => hnn x (List.mem_cons_of_mem e hx)
    rw [List.cons_append, pick_cons, pick_cons, total_cons]
    by_cases hv : v < wt e
    · rw [if_pos hv, if_pos (by omega), if_pos hv]
    · rw [if_neg hv, if_neg hv, ih (fun x hx => hnn x (List.mem_cons_of_mem e hx)) (by omega),
        sub_sub]
      by_cases hlt : v < wt e + total wt es
      · rw [if_pos (by omega), if_pos hlt]
      · rw [if_neg (by omega), if_neg hlt]

/-- A line cut into blocks whose lengths `f` gives: the block the value falls
in, then the entry within the block. -/
theorem pick_flatMap (B : γ → List β) (f : γ → Int) {is : List γ}
    (hf : ∀ i ∈ is, total wt (B i) = f i) (hnn : ∀ i ∈ is, ∀ e ∈ B i, 0 ≤ wt e) {v : Int}
    (h0 : 0 ≤ v) : pick wt (is.flatMap B) v = (pick f is v).bind fun r => pick wt (B r.1) r.2 := by
  induction is generalizing v with
  | nil => rfl
  | cons i is ih =>
    rw [List.flatMap_cons, pick_append _ (hnn i List.mem_cons_self) h0, pick_cons,
      hf i List.mem_cons_self]
    by_cases hv : v < f i
    · rw [if_pos hv, if_pos hv]
      rfl
    · rw [if_neg hv, if_neg hv, ih (fun j hj => hf j (List.mem_cons_of_mem i hj))
        (fun j hj => hnn j (List.mem_cons_of_mem i hj)) (by omega)]

/-- The values in `[0, total)` that pick an entry of the class `q` are as many
as the class weighs. -/
theorem card_pick (q : β → Bool) {es : List β} (hnn : ∀ e ∈ es, 0 ≤ wt e) :
    (((Finset.Ico 0 (total wt es)).filter fun v => (pick wt es v).any fun r => q r.1).card : Int) =
      total wt (es.filter q) := by
  induction es with
  | nil => simp
  | cons e es ih =>
    have he := hnn e List.mem_cons_self
    have hes := total_nonneg fun x hx => hnn x (List.mem_cons_of_mem e hx)
    -- the values that fall in `e` pick it
    have hfirst : (((Finset.Ico 0 (wt e)).filter fun v =>
        (pick wt (e :: es) v).any fun r => q r.1).card : Int) = if q e then wt e else 0 := by
      have hpick : ∀ v ∈ Finset.Ico 0 (wt e),
          ((pick wt (e :: es) v).any fun r => q r.1) = q e := by
        intro v hv
        rw [Finset.mem_Ico] at hv
        rw [pick_cons, if_pos hv.2]
        rfl
      by_cases hq : q e
      · rw [Finset.filter_true_of_mem fun v hv => (hpick v hv).trans hq, if_pos hq,
          Int.card_Ico_of_le 0 (wt e) he, sub_zero]
      · rw [Finset.filter_false_of_mem fun v hv => by rw [hpick v hv]; exact hq, if_neg hq]
        rfl
    -- the values past `e` are the values of the rest, shifted by its weight
    have hrest : (((Finset.Ico (wt e) (wt e + total wt es)).filter fun v =>
        (pick wt (e :: es) v).any fun r => q r.1).card : Int) =
        (((Finset.Ico 0 (total wt es)).filter fun v => (pick wt es v).any fun r => q r.1).card : Int) := by
      have hshift : Finset.Ico (wt e) (wt e + total wt es) =
          (Finset.Ico 0 (total wt es)).map (addLeftEmbedding (wt e)) := by
        rw [Finset.map_add_left_Ico (0 : Int) (total wt es) (wt e), add_zero]
      rw [hshift, Finset.filter_map, Finset.card_map]
      congr 2
      apply Finset.filter_congr
      intro v hv
      rw [Finset.mem_Ico] at hv
      simp only [Function.comp_apply, addLeftEmbedding_apply, pick_cons]
      rw [if_neg (by omega), add_sub_cancel_left]
    rw [total_cons, ← Finset.Ico_union_Ico_eq_Ico he (by omega : wt e ≤ wt e + total wt es),
      Finset.filter_union,
      Finset.card_union_of_disjoint
        (Finset.disjoint_filter_filter (Finset.Ico_disjoint_Ico_consecutive _ _ _)),
      Nat.cast_add, hfirst, hrest, ih fun x hx => hnn x (List.mem_cons_of_mem e hx), List.filter_cons]
    split_ifs <;> simp

/-- The positions below `M * k`, block by block: block `b` holds the positions
from `M * b` to `M * b + M - 1`. -/
theorem range_mul_eq_flatMap (M k : Nat) :
    List.range (M * k) = (List.finRange k).flatMap fun b => (List.range M).map (M * b.val + ·) := by
  induction k with
  | zero => simp
  | succ k ih =>
    rw [Nat.mul_succ, List.range_add, ih, List.finRange_succ_last, List.flatMap_append,
      List.flatMap_map]
    simp

theorem map_val_finRange (k : Nat) : (List.finRange k).map Fin.val = List.range k :=
  List.ext_getElem (by simp) fun i _ _ => by simp

/-- The sum after one argument changes, in the form without subtraction. -/
theorem sum_update_add {ι δ M : Type} [Fintype ι] [DecidableEq ι] [AddCommMonoid M]
    (g : ι → δ → M) (f : ι → δ) (i : ι) (x : δ) :
    ∑ j, g j (Function.update f i x j) + g i (f i) = ∑ j, g j (f j) + g i x := by
  have h₁ := Finset.add_sum_erase Finset.univ (fun j => g j (Function.update f i x j))
    (Finset.mem_univ i)
  have h₂ := Finset.add_sum_erase Finset.univ (fun j => g j (f j)) (Finset.mem_univ i)
  have hrest : ∑ j ∈ Finset.univ.erase i, g j (Function.update f i x j) =
      ∑ j ∈ Finset.univ.erase i, g j (f j) :=
    Finset.sum_congr rfl fun j hj => by rw [Function.update_of_ne (Finset.ne_of_mem_erase hj)]
  simp only [Function.update_self] at h₁
  rw [← h₁, ← h₂, hrest]
  ac_rfl

end GoEthereum.WeightedPick
