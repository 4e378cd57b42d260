import Mathlib.Data.Set.Function

/-!
Memoising a function through a cache keyed by a digest of its argument.

A cache maps keys to stored values; a lookup at key `k` for argument `x`
answers the stored value, or computes `f x` and stores it under `k`. The
lookup answers as `f` does only if every stored value was computed from an
argument with that key and the key function does not collide on the
arguments that occur. `SoundOn S key f m` is the first condition, for the
arguments of a set `S`; `Set.InjOn key S` is the second. Every lookup with
a matching key keeps the cache sound, so soundness is an invariant of any
run that only ever looks up with matching keys.
-/

namespace GoEthereum.Memo

variable {α κ β : Type*}

/-- The answer of a lookup at `k` for argument `x`, and the cache after it:
a missing entry is filled with `f x`. -/
def lookup [DecidableEq κ] (f : α → β) (m : κ → Option β) (k : κ) (x : α) : β × (κ → Option β) :=
  match m k with
  | some b => (b, m)
  | none => (f x, Function.update m k (some (f x)))

/-- Every stored value is `f` of an argument of `S` under its key. -/
def SoundOn (S : Set α) (key : α → κ) (f : α → β) (m : κ → Option β) : Prop :=
  ∀ k b, m k = some b → ∃ x ∈ S, key x = k ∧ f x = b

variable {S : Set α} {key : α → κ} {f : α → β} {m : κ → Option β} {k : κ} {x : α}

variable [DecidableEq κ]

/-- A lookup with a matching key keeps the cache sound. -/
theorem SoundOn.lookup_snd (hm : SoundOn S key f m) (hx : x ∈ S) (hk : key x = k) :
    SoundOn S key f (lookup f m k x).2 := by
  unfold lookup
  cases hmk : m k with
  | some b => exact hm
  | none =>
      intro k' b h
      dsimp only at h
      by_cases hkk : k' = k
      · subst hkk
        simp only [Function.update_self, Option.some.injEq] at h
        exact ⟨x, hx, hk, h⟩
      · rw [Function.update_of_ne hkk] at h
        exact hm k' b h

end GoEthereum.Memo
