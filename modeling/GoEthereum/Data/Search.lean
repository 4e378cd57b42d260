import Mathlib.Tactic

/-!
Go's `sort.Search(n, f)`: a binary search over `[0, n)` for the first index
at which `f` holds, for an `f` that, once it holds, holds to the end of the
range. `search_spec` says the index it returns splits the range there:
`f` fails below it and holds from it on. The loop is translated as Go's
library writes it, with the window `[i, j)` and the midpoint `(i + j) / 2`.
-/

namespace GoEthereum.Search

/-- The loop of `sort.Search` over the window `[i, j)`. -/
def searchLoop (f : Nat → Bool) (i j : Nat) : Nat :=
  if i < j then
    let h := (i + j) / 2
    if !f h then searchLoop f (h + 1) j else searchLoop f i h
  else i
termination_by j - i

/-- `sort.Search(n, f)`. -/
def search (n : Nat) (f : Nat → Bool) : Nat := searchLoop f 0 n

variable {f : Nat → Bool} {n : Nat}

/-- `f` holds on `[0, n)` from some point on. -/
def Upward (n : Nat) (f : Nat → Bool) : Prop :=
  ∀ a b, a ≤ b → b < n → f a = true → f b = true

/-- What the window `[i, j)` of the loop knows: `f` fails below `i` and holds
from `j` to `n`. -/
def Window (n : Nat) (f : Nat → Bool) (i j : Nat) : Prop :=
  i ≤ j ∧ j ≤ n ∧ (∀ k < i, f k = false) ∧ ∀ k, j ≤ k → k < n → f k = true

/-- One halving keeps the window. -/
theorem Window.halve {i j : Nat} (hmono : Upward n f) (hw : Window n f i j) (hij : i < j) :
    (f ((i + j) / 2) = false → Window n f ((i + j) / 2 + 1) j) ∧
      (f ((i + j) / 2) = true → Window n f i ((i + j) / 2)) := by
  obtain ⟨_, hjn, hbelow, habove⟩ := hw
  constructor
  · intro hfalse
    refine ⟨by omega, hjn, fun k hk => ?_, habove⟩
    -- below the midpoint `f` fails, or it would hold at the midpoint
    by_contra hk'
    have hmid := hmono k ((i + j) / 2) (by omega) (by omega) (Bool.not_eq_false _ ▸ hk')
    rw [hmid] at hfalse
    cases hfalse
  · intro htrue
    refine ⟨by omega, by omega, hbelow, fun k hk hkn => ?_⟩
    exact hmono _ k hk hkn htrue

theorem searchLoop_window {i j : Nat} (hmono : Upward n f) (hw : Window n f i j) :
    Window n f (searchLoop f i j) (searchLoop f i j) := by
  fun_induction searchLoop f i j with
  | case1 i j hij h hf ih =>
    simp only [Bool.not_eq_true'] at hf
    exact ih ((hw.halve hmono hij).1 hf)
  | case2 i j hij h hf ih =>
    simp only [Bool.not_eq_true', Bool.not_eq_false] at hf
    exact ih ((hw.halve hmono hij).2 hf)
  | case3 i j hij =>
    obtain rfl : i = j := by have := hw.1; omega
    exact hw

/-- `sort.Search` returns the point where `f` starts to hold: below it `f`
fails, from it to `n` `f` holds, and it is at most `n`. -/
theorem search_spec (hmono : Upward n f) :
    search n f ≤ n ∧ (∀ k < search n f, f k = false) ∧
      ∀ k, search n f ≤ k → k < n → f k = true := by
  have hinit : Window n f 0 n :=
    ⟨Nat.zero_le _, le_rfl, fun k hk => absurd hk (Nat.not_lt_zero k),
      fun k hk hkn => absurd hkn (Nat.not_lt.mpr hk)⟩
  obtain ⟨-, hle, hbelow, habove⟩ := searchLoop_window hmono hinit
  exact ⟨hle, hbelow, habove⟩

/-! ### Inserting where sort.Search points -/

section Insert

variable {α β : Type} [LinearOrder β] (key : α → β)

theorem insertIdx_eq_take_append_drop (l : List α) (x : α) {i : Nat} (hi : i ≤ l.length) :
    l.insertIdx i x = l.take i ++ x :: l.drop i := by
  induction l generalizing i with
  | nil =>
    obtain rfl : i = 0 := by simpa using hi
    rfl
  | cons y l ih =>
    cases i with
    | zero => rfl
    | succ i =>
      rw [List.insertIdx_succ_cons, ih (by simpa using hi)]
      rfl

/-- In a list sorted by `key`, the elements whose key is at least `b` come
last: what sort.Search needs of its predicate. -/
theorem upward_of_sorted {l : List α} (hl : l.Pairwise (fun a c => key a ≤ key c)) (b : β) :
    Upward l.length (fun i => l[i]?.all fun a => b ≤ key a) := by
  intro i j hij hj hi
  dsimp only at hi ⊢
  have hi' : i < l.length := by omega
  rw [List.getElem?_eq_getElem hi', Option.all_some, decide_eq_true_eq] at hi
  rw [List.getElem?_eq_getElem hj, Option.all_some, decide_eq_true_eq]
  rcases Nat.lt_or_eq_of_le hij with hlt | rfl
  · exact hi.trans (List.pairwise_iff_getElem.mp hl i j hi' hj hlt)
  · exact hi

/-- Inserting an element at the index sort.Search finds for its key keeps
a list sorted by `key`. -/
theorem pairwise_insertIdx_search {l : List α} (hl : l.Pairwise (fun a c => key a ≤ key c)) (x : α) :
    (l.insertIdx (search l.length fun i => l[i]?.all fun a => key x ≤ key a) x).Pairwise
      (fun a c => key a ≤ key c) := by
  obtain ⟨hle, hbelow, habove⟩ := search_spec (upward_of_sorted key hl (key x))
  set i := search l.length fun i => l[i]?.all fun a => key x ≤ key a
  -- below the index the keys are smaller than `x`'s, from it on they are not
  have hlt : ∀ a ∈ l.take i, key a < key x := by
    intro a ha
    obtain ⟨k, hk, rfl⟩ := List.getElem_of_mem ha
    rw [List.length_take] at hk
    have hfalse := hbelow k (by omega)
    rw [List.getElem?_eq_getElem (by omega), Option.all_some, decide_eq_false_iff_not, not_le] at hfalse
    rwa [List.getElem_take]
  have hge : ∀ c ∈ l.drop i, key x ≤ key c := by
    intro c hc
    obtain ⟨k, hk, rfl⟩ := List.getElem_of_mem hc
    rw [List.length_drop] at hk
    have htrue := habove (i + k) (by omega) (by omega)
    rw [List.getElem?_eq_getElem (by omega), Option.all_some, decide_eq_true_eq] at htrue
    rwa [List.getElem_drop]
  have hsplit := List.take_append_drop i l ▸ hl
  rw [List.pairwise_append] at hsplit
  rw [insertIdx_eq_take_append_drop l x hle, List.pairwise_append, List.pairwise_cons]
  refine ⟨hsplit.1, ⟨hge, hsplit.2.1⟩, fun a ha c hc => ?_⟩
  rcases List.mem_cons.mp hc with rfl | hc
  · exact (hlt a ha).le
  · exact hsplit.2.2 a ha c hc

end Insert

end GoEthereum.Search
