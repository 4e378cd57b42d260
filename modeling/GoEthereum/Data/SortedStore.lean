import Mathlib

/-!
A key-value store that keeps its entries sorted by key, as LevelDB presents
its contents: `get`, `put` and `delete` act on the entry of one key and leave
the others as they are (`get_put_ne`), a batch is its
operations applied in order, and an iterator walks the entries in key order
from the first key at or after the one it is sought to (`seek`).
-/

namespace GoEthereum.SortedStore

variable {κ ν : Type} [LinearOrder κ]

/-- Insertion into a key-sorted list, replacing the entry of an equal key. -/
def insert (k : κ) (v : ν) : List (κ × ν) → List (κ × ν)
  | [] => [(k, v)]
  | (k', v') :: rest =>
    if k < k' then (k, v) :: (k', v') :: rest
    else if k = k' then (k, v) :: rest
    else (k', v') :: insert k v rest

theorem mem_insert {k : κ} {v : ν} {e : κ × ν} {l : List (κ × ν)} (h : e ∈ insert k v l) :
    e = (k, v) ∨ e ∈ l := by
  induction l with
  | nil => simpa [insert] using h
  | cons hd tl ih =>
    obtain ⟨k', v'⟩ := hd
    rw [insert] at h
    split_ifs at h with hlt heq
    · simpa using h
    · rcases List.mem_cons.mp h with h | h
      · exact .inl h
      · exact .inr (List.mem_cons_of_mem _ h)
    · rcases List.mem_cons.mp h with h | h
      · exact .inr (h ▸ List.mem_cons_self)
      · rcases ih h with h | h
        · exact .inl h
        · exact .inr (List.mem_cons_of_mem _ h)

theorem pairwise_insert (k : κ) (v : ν) {l : List (κ × ν)}
    (h : l.Pairwise (fun a b => a.1 < b.1)) :
    (insert k v l).Pairwise (fun a b => a.1 < b.1) := by
  induction l with
  | nil => simp [insert]
  | cons hd tl ih =>
    obtain ⟨k', v'⟩ := hd
    have htl := List.pairwise_cons.mp h
    rw [insert]
    split_ifs with hlt heq
    · refine List.Pairwise.cons ?_ h
      intro e he
      rcases List.mem_cons.mp he with rfl | he
      · exact hlt
      · exact hlt.trans (htl.1 e he)
    · subst heq
      exact List.Pairwise.cons htl.1 htl.2
    · refine List.Pairwise.cons ?_ (ih htl.2)
      intro e he
      rcases mem_insert he with rfl | he
      · exact lt_of_le_of_ne (not_lt.mp hlt) (Ne.symm heq)
      · exact htl.1 e he

/-- The entries, sorted by strictly increasing key. -/
structure Store (κ ν : Type) [LinearOrder κ] where
  entries : List (κ × ν)
  sorted : entries.Pairwise (fun a b => a.1 < b.1)

/-- A write of a batch. -/
inductive Op (κ ν : Type) where
  | put (k : κ) (v : ν)
  | delete (k : κ)

namespace Store

def empty : Store κ ν := ⟨[], List.Pairwise.nil⟩

def get (s : Store κ ν) (k : κ) : Option ν :=
  (s.entries.find? (fun e => e.1 = k)).map Prod.snd

def put (s : Store κ ν) (k : κ) (v : ν) : Store κ ν :=
  ⟨insert k v s.entries, pairwise_insert k v s.sorted⟩

def delete (s : Store κ ν) (k : κ) : Store κ ν :=
  ⟨s.entries.filter (fun e => e.1 ≠ k), s.sorted.filter _⟩

def apply (s : Store κ ν) : Op κ ν → Store κ ν
  | .put k v => s.put k v
  | .delete k => s.delete k

/-- A batch, its operations applied in order. -/
def write (s : Store κ ν) (batch : List (Op κ ν)) : Store κ ν :=
  batch.foldl apply s

/-- The entries an iterator sought to `k` walks, in key order. -/
def seek (s : Store κ ν) (k : κ) : List (κ × ν) :=
  s.entries.filter (fun e => k ≤ e.1)

@[simp] theorem get_empty (k : κ) : (empty : Store κ ν).get k = none := rfl

@[simp] theorem get_put_self (s : Store κ ν) (k : κ) (v : ν) : (s.put k v).get k = some v := by
  obtain ⟨l, hl⟩ := s
  simp only [get, put]
  clear hl
  induction l with
  | nil => simp [insert]
  | cons hd tl ih =>
    obtain ⟨k', v'⟩ := hd
    rw [insert]
    split_ifs with hlt heq
    · simp
    · simp
    · simp [Ne.symm heq, ih]

theorem get_put_ne (s : Store κ ν) {k k₂ : κ} (v : ν) (h : k ≠ k₂) :
    (s.put k v).get k₂ = s.get k₂ := by
  obtain ⟨l, hl⟩ := s
  simp only [get, put]
  clear hl
  induction l with
  | nil => simp [insert, h]
  | cons hd tl ih =>
    obtain ⟨k', v'⟩ := hd
    rw [insert]
    split_ifs with hlt heq
    · simp [h]
    · subst heq
      simp [h]
    · by_cases hk : k' = k₂
      · simp [hk]
      · simp [hk, ih]

@[simp] theorem get_delete_self (s : Store κ ν) (k : κ) : (s.delete k).get k = none := by
  simp [get, delete, List.find?_filter]

@[simp] theorem write_nil (s : Store κ ν) : s.write [] = s := rfl

@[simp] theorem write_cons (s : Store κ ν) (op : Op κ ν) (batch : List (Op κ ν)) :
    s.write (op :: batch) = (s.apply op).write batch := rfl

end Store

end GoEthereum.SortedStore
