import GoEthereum.Data.Search
import GoEthereum.Data.Splice

/-!
A bounded list kept nearest first, as `nodesByDistance` keeps it: `push`
finds the place of a new entry with `sort.Search`, appends the entry while
the list is shorter than its bound, and slides the entries from that place
down by one, which drops the last entry when the list is full.

Over a key `d` into a linear order, `Closest d max L r` says that `r` is
what pushing the entries `L` can leave: nearest first, `min max L.length`
entries, and, together with the entries it dropped, a permutation of `L` in
which every dropped entry is at least as far as every kept one. `Closest.push`
says one push keeps it whenever the test that `sort.Search` bisects
`Splits` the entries around the new one, among the entries `S` that are ever
pushed (where the test and the key agree); Go uses two such tests, the first
entry at least as far (`splits_le`) and the first entry farther
(`splits_lt`).
-/

namespace GoEthereum.Nearest

open Search

variable {α β : Type*} [LinearOrder β] (d : α → β)

/-- Nearest first. -/
def Sorted (xs : List α) : Prop := xs.Pairwise fun a b => d a ≤ d b

/-- The slide of `push` at the place `ix`: `append` while there is room, then
`copy(xs[ix+1:], xs[ix:])` and `xs[ix] = x`. -/
def pushAt (xs : List α) (x : α) (ix max : Nat) : List α :=
  let ys := if xs.length < max then xs ++ [x] else xs
  if ix < ys.length then (Splice.copyAt ys (ix + 1) (ys.drop ix)).1.set ix x else ys

/-- `push(x, max)`, at the first entry `e` with `goesAfter x e`. -/
def push (goesAfter : α → α → Bool) (xs : List α) (x : α) (max : Nat) : List α :=
  pushAt xs x (search xs.length fun i => xs[i]?.any (goesAfter x)) max

/-- A test that `sort.Search` can bisect on a nearest-first list of entries
of `S` and that places `x` between the nearer and the farther of them. -/
structure Splits (x : α) (goesAfter : α → Bool) (S : α → Prop) : Prop where
  mono : ∀ a b, S a → S b → d a ≤ d b → goesAfter a = true → goesAfter b = true
  far : ∀ e, S e → goesAfter e = true → d x ≤ d e
  near : ∀ e, S e → goesAfter e = false → d e ≤ d x

theorem splits_le (x : α) (S : α → Prop) : Splits d x (fun e => decide (d x ≤ d e)) S where
  mono _ _ _ _ hab h := decide_eq_true ((of_decide_eq_true h).trans hab)
  far _ _ h := of_decide_eq_true h
  near _ _ h := (not_le.mp (of_decide_eq_false h)).le

theorem splits_lt (x : α) (S : α → Prop) : Splits d x (fun e => decide (d x < d e)) S where
  mono _ _ _ _ hab h := decide_eq_true ((of_decide_eq_true h).trans_le hab)
  far _ _ h := (of_decide_eq_true h).le
  near _ _ h := not_lt.mp (of_decide_eq_false h)

/-- A test that agrees with a splitting test on the entries of `S` splits
them too. -/
theorem Splits.congr {x : α} {g g' : α → Bool} {S : α → Prop} (h : Splits d x g S)
    (hg : ∀ e, S e → g e = g' e) : Splits d x g' S where
  mono a b ha hb hab hga := by
    rw [← hg b hb]
    exact h.mono a b ha hb hab (by rw [hg a ha]; exact hga)
  far e he hge := h.far e he (by rw [hg e he]; exact hge)
  near e he hge := h.near e he (by rw [hg e he]; exact hge)

/-! ### The slide -/

section Slide

variable {d}

/-- `copy(ys[ix+1:], ys[ix:])` moves the entries from `ix` down by one and
drops the last. -/
theorem copyAt_drop_self {ys : List α} {ix : Nat} (hix : ix < ys.length) :
    (Splice.copyAt ys (ix + 1) (ys.drop ix)).1 =
      ys.take (ix + 1) ++ (ys.drop ix).take (ys.length - ix - 1) := by
  have hn : min (ys.drop ix).length (ys.length - (ix + 1)) = ys.length - ix - 1 := by
    rw [List.length_drop]
    omega
  have hend : ys.drop (ix + 1 + (ys.length - ix - 1)) = [] :=
    List.drop_eq_nil_of_le (by omega)
  simp only [Splice.copyAt, hn, hend, List.append_nil]

theorem set_take_succ {ys : List α} {ix : Nat} (x : α) (hix : ix < ys.length) :
    (ys.take (ix + 1)).set ix x = ys.take ix ++ [x] := by
  rw [List.take_add_one, List.getElem?_eq_getElem hix, Option.toList_some,
    List.set_append_right _ _ (by simp [Nat.min_eq_left hix.le])]
  simp [Nat.min_eq_left hix.le]

theorem slide_eq {ys : List α} {x : α} {ix : Nat} (hix : ix < ys.length) :
    (Splice.copyAt ys (ix + 1) (ys.drop ix)).1.set ix x =
      ys.take ix ++ x :: (ys.drop ix).take (ys.length - ix - 1) := by
  rw [copyAt_drop_self hix, List.set_append_left _ _ (by simp; omega), set_take_succ x hix]
  simp

/-- `push` at a place within the list inserts the entry there and keeps
the list within its bound, or at its length when it was already longer. -/
theorem pushAt_eq {xs : List α} {x : α} {ix max : Nat} (hix : ix ≤ xs.length) :
    pushAt xs x ix max = (xs.take ix ++ x :: xs.drop ix).take
      (if xs.length < max then xs.length + 1 else xs.length) := by
  unfold pushAt
  by_cases hroom : xs.length < max
  · -- the appended entry is slid over by the one before it
    have hlt : ix < (xs ++ [x]).length := by simp; omega
    simp only [if_pos hroom, if_pos hlt]
    rw [slide_eq hlt, List.take_append_of_le_length hix, List.drop_append_of_le_length hix,
      List.take_of_length_le (l := xs.take ix ++ x :: xs.drop ix) (by simp; omega)]
    have hrest : (xs.drop ix ++ [x]).take ((xs ++ [x]).length - ix - 1) = xs.drop ix :=
      List.take_append_of_le_length (by simp; omega) |>.trans
        (List.take_of_length_le (by simp; omega))
    rw [hrest]
  · simp only [if_neg hroom]
    by_cases hlt : ix < xs.length
    · rw [if_pos hlt, slide_eq hlt, List.take_append,
        List.take_of_length_le (l := xs.take ix) (by simp), List.length_take,
        Nat.min_eq_left hix]
      have hsucc : xs.length - ix = (xs.length - ix - 1) + 1 := by omega
      rw [hsucc, List.take_succ_cons, Nat.add_sub_cancel]
    · obtain rfl : ix = xs.length := by omega
      rw [if_neg hlt, List.drop_length, List.take_length, List.take_append_of_le_length le_rfl,
        List.take_length]

end Slide

/-! ### Nearest first -/

variable {d}

theorem Sorted.take {xs : List α} (h : Sorted d xs) (k : Nat) : Sorted d (xs.take k) :=
  List.Pairwise.sublist (List.take_sublist _ _) h

/-- An entry placed between the nearer and the farther entries keeps the
list nearest first. -/
theorem Sorted.insert {xs : List α} {x : α} {ix : Nat} (hs : Sorted d xs)
    (hle : ∀ e ∈ xs.take ix, d e ≤ d x) (hge : ∀ e ∈ xs.drop ix, d x ≤ d e) :
    Sorted d (xs.take ix ++ x :: xs.drop ix) := by
  have hsplit : Sorted d (xs.take ix ++ xs.drop ix) := by rwa [List.take_append_drop]
  unfold Sorted at hsplit ⊢
  rw [List.pairwise_append] at hsplit ⊢
  obtain ⟨h₁, h₂, h₁₂⟩ := hsplit
  refine ⟨h₁, List.pairwise_cons.mpr ⟨hge, h₂⟩, ?_⟩
  intro a ha b hb
  rcases List.mem_cons.mp hb with rfl | hb
  · exact hle a ha
  · exact h₁₂ a ha b hb

/-- On a nearest-first list, `sort.Search` with a test that splits the
entries around `x` finds the place between the nearer and the farther ones. -/
theorem search_place {xs : List α} {x : α} {p : α → Bool} {S : α → Prop} (hs : Sorted d xs)
    (hS : ∀ e ∈ xs, S e) (hsp : Splits d x p S) :
    search xs.length (fun i => xs[i]?.any p) ≤ xs.length ∧
      (∀ e ∈ xs.take (search xs.length fun i => xs[i]?.any p), d e ≤ d x) ∧
      ∀ e ∈ xs.drop (search xs.length fun i => xs[i]?.any p), d x ≤ d e := by
  have hup : Upward xs.length fun i => xs[i]?.any p := by
    intro a b hab hb ha
    dsimp only at ha ⊢
    rw [List.getElem?_eq_getElem (by omega)] at ha
    rw [List.getElem?_eq_getElem hb]
    simp only [Option.any_some] at ha ⊢
    have hab' : d xs[a] ≤ d xs[b] := by
      rcases hab.lt_or_eq with hlt | rfl
      · exact List.pairwise_iff_getElem.mp hs a b (by omega) hb hlt
      · exact le_rfl
    exact hsp.mono _ _ (hS _ (List.getElem_mem _)) (hS _ (List.getElem_mem _)) hab' ha
  obtain ⟨hle, hbelow, habove⟩ := search_spec hup
  refine ⟨hle, fun e he => ?_, fun e he => ?_⟩
  · obtain ⟨k, hk, rfl⟩ := List.getElem_of_mem he
    rw [List.length_take] at hk
    have hf := hbelow k (by omega)
    rw [List.getElem?_eq_getElem (by omega), Option.any_some] at hf
    rw [List.getElem_take]
    exact hsp.near _ (hS _ (List.getElem_mem _)) hf
  · obtain ⟨k, hk, rfl⟩ := List.getElem_of_mem he
    rw [List.length_drop] at hk
    have ht := habove (_ + k) (Nat.le_add_right _ _) (by omega)
    rw [List.getElem?_eq_getElem (by omega), Option.any_some] at ht
    rw [List.getElem_drop]
    exact hsp.far _ (hS _ (List.getElem_mem _)) ht

variable (d) in
/-- What pushing the entries `L` into a list bounded by `max` leaves in it. -/
structure Closest (max : Nat) (L r : List α) : Prop where
  sorted : Sorted d r
  length_eq : r.length = min max L.length
  split : ∃ rest, (r ++ rest).Perm L ∧ ∀ z ∈ r, ∀ y ∈ rest, d z ≤ d y

variable (d) in
theorem closest_nil (max : Nat) : Closest d max [] [] where
  sorted := List.Pairwise.nil
  length_eq := by simp
  split := ⟨[], by simp, by simp⟩

theorem Closest.subperm {max : Nat} {L r : List α} (h : Closest d max L r) : r.Subperm L := by
  obtain ⟨rest, hperm, -⟩ := h.split
  exact (List.sublist_append_left r rest).subperm.trans hperm.subperm

/-- The entry that falls off a full list is the farthest: every kept entry
is at least as near as it, and as every entry dropped before. -/
theorem Closest.push {max : Nat} {L r : List α} {x : α} {goesAfter : α → α → Bool}
    {S : α → Prop} (h : Closest d max L r) (hS : ∀ e ∈ L, S e) (hsp : Splits d x (goesAfter x) S) :
    Closest d max (L ++ [x]) (push goesAfter r x max) := by
  obtain ⟨hix, hle, hge⟩ := search_place h.sorted (fun e he => hS e (h.subperm.subset he)) hsp
  obtain ⟨rest, hperm, hcross⟩ := h.split
  rw [Nearest.push, pushAt_eq hix]
  set s := r.take (search r.length fun i => r[i]?.any (goesAfter x)) ++
    x :: r.drop (search r.length fun i => r[i]?.any (goesAfter x)) with hs_def
  have hs : Sorted d s := h.sorted.insert hle hge
  have hlen_s : s.length = r.length + 1 := by
    rw [hs_def, List.length_append, List.length_cons, ← Nat.add_assoc, ← List.length_append,
      List.take_append_drop]
  have hsx : s.Perm (x :: r) := by
    rw [hs_def]
    exact List.perm_middle.trans (by rw [List.take_append_drop])
  have hperm_s : (s ++ rest).Perm (L ++ [x]) :=
    (hsx.append_right rest).trans ((hperm.cons x).trans (List.perm_append_singleton x L).symm)
  have hlen_L := hperm.length_eq
  rw [List.length_append] at hlen_L
  have hlen_r := h.length_eq
  by_cases hroom : r.length < max
  · -- room: nothing was dropped before, and nothing is now
    have hrest : rest = [] := List.eq_nil_of_length_eq_zero (by omega)
    rw [if_pos hroom, List.take_of_length_le (by omega)]
    refine ⟨hs, by simp; omega, rest, hperm_s, ?_⟩
    simp [hrest]
  · -- full: the last entry of `s` falls off
    rw [if_neg hroom]
    obtain ⟨w, hw⟩ : ∃ w, s.drop r.length = [w] :=
      List.length_eq_one_iff.mp (by rw [List.length_drop]; omega)
    have hsplit_s : s = s.take r.length ++ [w] := by rw [← hw, List.take_append_drop]
    have hbelow_w : ∀ z ∈ s.take r.length, d z ≤ d w := by
      have hsw : Sorted d (s.take r.length ++ [w]) := hsplit_s ▸ hs
      exact fun z hz => (List.pairwise_append.mp hsw).2.2 z hz w (List.mem_singleton_self w)
    refine ⟨hs.take _, by simp; omega, [w] ++ rest, ?_, ?_⟩
    · rw [← List.append_assoc, ← hsplit_s]
      exact hperm_s
    · intro z hz y hy
      rcases List.mem_append.mp hy with hy | hy
      · rw [List.mem_singleton.mp hy]
        exact hbelow_w z hz
      · by_cases hwr : w ∈ r
        · exact (hbelow_w z hz).trans (hcross w hwr y hy)
        · -- the new entry fell off, so the kept ones are the old ones
          have hwx : w = x := by
            have hws : w ∈ s := by rw [hsplit_s]; simp
            rcases List.mem_cons.mp (hsx.subset hws) with h | h
            · exact h
            · exact absurd h hwr
          have hkept : (s.take r.length).Perm r := by
            have hsw : (s.take r.length ++ [x]).Perm (x :: r) := by
              rw [← hwx, ← hsplit_s, hwx]
              exact hsx
            exact (List.perm_cons x).mp ((List.perm_append_singleton x _).symm.trans hsw)
          exact hcross z (hkept.subset hz) y hy

/-- Pushing entries one by one keeps `Closest`. -/
theorem Closest.foldl {max : Nat} {goesAfter : α → α → Bool} {S : α → Prop}
    (hsp : ∀ x, S x → Splits d x (goesAfter x) S) (xs : List α) (hxs : ∀ x ∈ xs, S x) :
    ∀ {L r : List α}, (∀ e ∈ L, S e) → Closest d max L r →
      Closest d max (L ++ xs) (xs.foldl (fun r x => Nearest.push goesAfter r x max) r) := by
  induction xs with
  | nil =>
    intro L r _ h
    simpa using h
  | cons x xs ih =>
    intro L r hL h
    have hx : S x := hxs x List.mem_cons_self
    rw [List.foldl_cons, ← List.singleton_append, ← List.append_assoc]
    apply ih (fun y hy => hxs y (List.mem_cons_of_mem x hy))
    · intro e he
      rcases List.mem_append.mp he with he | he
      · exact hL e he
      · exact List.mem_singleton.mp he ▸ hx
    · exact h.push hL (hsp x hx)

/-- An entry that was pushed and is not kept is at least as far as every
kept one. -/
theorem Closest.le_of_not_mem {max : Nat} {L r : List α} (h : Closest d max L r) {y z : α} (hy : y ∈ L) (hyr : y ∉ r) (hz : z ∈ r) : d z ≤ d y := by
  obtain ⟨rest, hperm, hcross⟩ := h.split
  rcases List.mem_append.mp (hperm.symm.subset hy) with h' | h'
  · exact absurd h' hyr
  · exact hcross z hz y h'

/-- `Closest` reads the pushed entries only up to their order. -/
theorem Closest.perm {max : Nat} {L L' r : List α} (h : Closest d max L r) (hL : L.Perm L') :
    Closest d max L' r where
  sorted := h.sorted
  length_eq := by rw [h.length_eq, hL.length_eq]
  split := by
    obtain ⟨rest, hperm, hcross⟩ := h.split
    exact ⟨rest, hperm.trans hL, hcross⟩

/-- When every entry pushed fits, the list holds them all. -/
theorem Closest.perm_of_length_le {max : Nat} {L r : List α} (h : Closest d max L r)
    (hL : L.length ≤ max) : r.Perm L := by
  obtain ⟨rest, hperm, -⟩ := h.split
  have hlen := hperm.length_eq
  rw [List.length_append, h.length_eq, Nat.min_eq_right hL] at hlen
  have hrest : rest = [] := List.eq_nil_of_length_eq_zero (by omega)
  rw [hrest, List.append_nil] at hperm
  exact hperm

end GoEthereum.Nearest
