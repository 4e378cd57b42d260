import Mathlib

/-!
Folds whose step for a key overrides the previous step for the same key.

`lastByKey key l` keeps an entry of `l` unless the entry right after it has
the same key. When the step of a fold forgets an entry as soon as the next
entry with its key arrives (`Overrides`), the fold over `l` and the fold over
`lastByKey key l` agree (`foldl_lastByKey`). Over a list sorted by key and
then by a second field, `lastByKey` keeps exactly the entries that are
greatest in that field among those with their key (`mem_lastByKey`), and
its keys strictly increase (`pairwise_lastByKey`).
-/

namespace GoEthereum.LastByKey

variable {α κ ν σ : Type} (key : α → κ)

/-- The entries of a list that the next entry does not replace. -/
def lastByKey [DecidableEq κ] : List α → List α
  | [] => []
  | [a] => [a]
  | a :: b :: l => if key a = key b then lastByKey (b :: l) else a :: lastByKey (b :: l)

/-- The step of a fold forgets an entry once the next one with its key
arrives. -/
def Overrides (step : σ → α → σ) : Prop :=
  ∀ s a b, key a = key b → step (step s a) b = step s b

variable {key}

theorem foldl_lastByKey [DecidableEq κ] {step : σ → α → σ} (h : Overrides key step) :
    ∀ (l : List α) (s : σ), (lastByKey key l).foldl step s = l.foldl step s
  | [], _ => rfl
  | [_], _ => rfl
  | a :: b :: l, s => by
    by_cases hab : key a = key b
    · rw [lastByKey, if_pos hab, foldl_lastByKey h (b :: l)]
      simp only [List.foldl_cons, h s a b hab]
    · rw [lastByKey, if_neg hab, List.foldl_cons, foldl_lastByKey h (b :: l)]
      rfl

theorem mem_of_mem_lastByKey [DecidableEq κ] {c : α} :
    ∀ {l : List α}, c ∈ lastByKey key l → c ∈ l
  | [], h => h
  | [_], h => h
  | a :: b :: l, h => by
    rw [lastByKey] at h
    split at h
    · exact List.mem_cons_of_mem a (mem_of_mem_lastByKey h)
    · rcases List.mem_cons.mp h with rfl | h
      · exact List.mem_cons_self
      · exact List.mem_cons_of_mem a (mem_of_mem_lastByKey h)

/-- Every key of the list keeps an entry. -/
theorem exists_mem_lastByKey [DecidableEq κ] {c : α} :
    ∀ {l : List α}, c ∈ l → ∃ d ∈ lastByKey key l, key d = key c
  | [], h => absurd h List.not_mem_nil
  | [_], h => ⟨c, List.mem_singleton.mpr (List.mem_singleton.mp h), rfl⟩
  | a :: b :: l, h => by
    rw [lastByKey]
    split
    case isTrue hab =>
      rcases List.mem_cons.mp h with rfl | h
      · obtain ⟨d, hd, hdk⟩ := exists_mem_lastByKey (c := b) (l := b :: l) List.mem_cons_self
        exact ⟨d, hd, hdk.trans hab.symm⟩
      · exact exists_mem_lastByKey h
    case isFalse =>
      rcases List.mem_cons.mp h with rfl | h
      · exact ⟨c, List.mem_cons_self, rfl⟩
      · obtain ⟨d, hd, hdk⟩ := exists_mem_lastByKey h
        exact ⟨d, List.mem_cons_of_mem a hd, hdk⟩

section Sorted

variable [LinearOrder κ] [LinearOrder ν] {V : α → ν}

/-- Sorted by key, and by `V` among equal keys. -/
def KeyThen (key : α → κ) (V : α → ν) (a b : α) : Prop :=
  key a < key b ∨ (key a = key b ∧ V a ≤ V b)

/-- In a list sorted by key, an entry is followed only by entries with a
key at least its own. -/
theorem KeyThen.key_le {a b : α} (h : KeyThen key V a b) : key a ≤ key b := by
  rcases h with h | ⟨h, -⟩
  · exact le_of_lt h
  · exact le_of_eq h

theorem KeyThen.trans {a b c : α} (hab : KeyThen key V a b) (hbc : KeyThen key V b c) :
    KeyThen key V a c := by
  rcases hab with hab | ⟨hab, hVab⟩
  · exact .inl (lt_of_lt_of_le hab hbc.key_le)
  · rcases hbc with hbc | ⟨hbc, hVbc⟩
    · exact .inl (hab ▸ hbc)
    · exact .inr ⟨hab.trans hbc, le_trans hVab hVbc⟩

theorem KeyThen.total (a b : α) : KeyThen key V a b ∨ KeyThen key V b a := by
  rcases lt_trichotomy (key a) (key b) with h | h | h
  · exact .inl (.inl h)
  · rcases le_total (V a) (V b) with hV | hV
    · exact .inl (.inr ⟨h, hV⟩)
    · exact .inr (.inr ⟨h.symm, hV⟩)
  · exact .inr (.inl h)

/-- After an entry whose successor has another key, no later entry shares
its key. -/
theorem key_ne_of_pairwise {a b d : α} {l : List α}
    (hl : (a :: b :: l).Pairwise (KeyThen key V)) (hab : key a ≠ key b) (hd : d ∈ b :: l) :
    key a < key d := by
  have hab' : key a < key b := by
    rcases List.rel_of_pairwise_cons hl List.mem_cons_self with h | ⟨h, -⟩
    · exact h
    · exact absurd h hab
  rcases List.mem_cons.mp hd with rfl | hd
  · exact hab'
  · exact lt_of_lt_of_le hab' (List.rel_of_pairwise_cons hl.of_cons hd).key_le

/-- Over a sorted list in which key and `V` determine the entry, `lastByKey`
keeps exactly the entries greatest in `V` among those with their key. -/
theorem mem_lastByKey (hinj : ∀ a b, key a = key b → V a = V b → a = b) {c : α} :
    ∀ {l : List α}, l.Pairwise (KeyThen key V) →
      (c ∈ lastByKey key l ↔ c ∈ l ∧ ∀ d ∈ l, key d = key c → V d ≤ V c)
  | [], _ => by simp [lastByKey]
  | [a], _ => by
    simp only [lastByKey, List.mem_singleton, forall_eq]
    constructor
    · rintro rfl
      exact ⟨rfl, fun _ => le_refl _⟩
    · exact fun h => h.1
  | a :: b :: l, hl => by
    have ih := mem_lastByKey hinj (c := c) (l := b :: l) hl.of_cons
    rw [lastByKey]
    split
    case isTrue hab =>
      -- `a` is replaced by `b`, which has its key and a `V` at least its own
      have hVab : V a ≤ V b := by
        rcases List.rel_of_pairwise_cons hl List.mem_cons_self with h | ⟨-, h⟩
        · exact absurd hab (ne_of_lt h)
        · exact h
      rw [ih]
      constructor
      · rintro ⟨hc, hmax⟩
        refine ⟨List.mem_cons_of_mem a hc, fun d hd hdc => ?_⟩
        rcases List.mem_cons.mp hd with rfl | hd
        · exact le_trans hVab (hmax b List.mem_cons_self (hab.symm.trans hdc))
        · exact hmax d hd hdc
      · rintro ⟨hc, hmax⟩
        rcases List.mem_cons.mp hc with rfl | hc
        · have hba := hmax b (List.mem_cons_of_mem c List.mem_cons_self) hab.symm
          have hcb : c = b := hinj c b hab (le_antisymm hVab hba)
          subst hcb
          exact ⟨List.mem_cons_self, fun d hd hdc => hmax d (List.mem_cons_of_mem c hd) hdc⟩
        · exact ⟨hc, fun d hd hdc => hmax d (List.mem_cons_of_mem a hd) hdc⟩
    case isFalse hab =>
      -- `a` is the last of its key: every later entry has a greater key
      have hlater := fun d (hd : d ∈ b :: l) => key_ne_of_pairwise hl hab hd
      rw [List.mem_cons, ih]
      constructor
      · rintro (rfl | ⟨hc, hmax⟩)
        · refine ⟨List.mem_cons_self, fun d hd hdc => ?_⟩
          rcases List.mem_cons.mp hd with rfl | hd
          · exact le_refl _
          · exact absurd hdc (ne_of_gt (hlater d hd))
        · refine ⟨List.mem_cons_of_mem a hc, fun d hd hdc => ?_⟩
          rcases List.mem_cons.mp hd with rfl | hd
          · exact absurd hdc (ne_of_lt (hlater c hc))
          · exact hmax d hd hdc
      · rintro ⟨hc, hmax⟩
        rcases List.mem_cons.mp hc with rfl | hc
        · exact .inl rfl
        · exact .inr ⟨hc, fun d hd hdc => hmax d (List.mem_cons_of_mem a hd) hdc⟩

/-- Over a sorted list the keys `lastByKey` keeps strictly increase. -/
theorem pairwise_lastByKey :
    ∀ {l : List α}, l.Pairwise (KeyThen key V) →
      (lastByKey key l).Pairwise (fun a b => key a < key b)
  | [], _ => List.Pairwise.nil
  | [_], _ => List.pairwise_singleton _ _
  | a :: b :: l, hl => by
    have ih := pairwise_lastByKey (l := b :: l) hl.of_cons
    rw [lastByKey]
    split
    · exact ih
    case isFalse hab =>
      exact List.Pairwise.cons
        (fun d hd => key_ne_of_pairwise hl hab (mem_of_mem_lastByKey hd)) ih

end Sorted

end GoEthereum.LastByKey
