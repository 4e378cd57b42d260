import Mathlib.Logic.Basic

/-!
Reasoning about computations in `EStateM ε σ`, the monad of a mutable
state whose errors keep the state they were raised in.

A successful bind is a successful first computation followed by a
successful continuation (`bind_eq_ok`); a known first step rewrites the bind
away (`bind_of_ok`, `bind_of_error`). Proofs about a `do` block then peel
its steps with these instead of unfolding the block.

`Keeps P x` says that `x` keeps the invariant `P` of the state whenever it
succeeds, and `KeepsAfter P x` that it keeps it whatever the outcome. Both
are closed under the constructs of a `do` block, so that a block keeps an
invariant as soon as each primitive it calls does.
-/

namespace GoEthereum.StateM

variable {ε σ α β : Type} {x : EStateM ε σ α} {f : α → EStateM ε σ β}
  {s s₁ s' : σ} {a : α} {b : β} {e : ε}

theorem bind_apply (x : EStateM ε σ α) (f : α → EStateM ε σ β) (s : σ) :
    (x >>= f) s = match x s with
      | .ok a s => f a s
      | .error e s => .error e s := rfl

theorem bind_of_ok (h : x s = .ok a s₁) : (x >>= f) s = f a s₁ := by
  rw [bind_apply, h]

theorem bind_of_error (h : x s = .error e s₁) : (x >>= f) s = .error e s₁ := by
  rw [bind_apply, h]

theorem bind_eq_ok : (x >>= f) s = .ok b s' ↔ ∃ a s₁, x s = .ok a s₁ ∧ f a s₁ = .ok b s' := by
  rw [bind_apply]
  constructor
  · intro h
    cases hx : x s with
    | ok a s₁ => exact ⟨a, s₁, rfl, by rw [hx] at h; exact h⟩
    | error e s₁ => rw [hx] at h; cases h
  · rintro ⟨a, s₁, hx, hf⟩
    rw [hx]
    exact hf

@[simp] theorem pure_apply (a : α) (s : σ) : (pure a : EStateM ε σ α) s = .ok a s := rfl

@[simp] theorem throw_apply (e : ε) (s : σ) : (throw e : EStateM ε σ α) s = .error e s := rfl

@[simp] theorem get_apply (s : σ) : (get : EStateM ε σ σ) s = .ok s s := rfl

@[simp] theorem set_apply (s s' : σ) : (set s' : EStateM ε σ PUnit) s = .ok ⟨⟩ s' := rfl

@[simp] theorem modify_apply (g : σ → σ) (s : σ) :
    (modify g : EStateM ε σ PUnit) s = .ok ⟨⟩ (g s) := rfl

theorem adaptExcept_apply {ε' : Type} (g : ε → ε') (x : EStateM ε σ α) (s : σ) :
    EStateM.adaptExcept g x s = match x s with
      | .error e s => .error (g e) s
      | .ok a s => .ok a s := rfl

theorem map_apply (g : α → β) (x : EStateM ε σ α) (s : σ) :
    (g <$> x) s = match x s with
      | .ok a s => .ok (g a) s
      | .error e s => .error e s := rfl

theorem map_eq_ok {g : α → β} : (g <$> x) s = .ok b s' ↔ ∃ a, x s = .ok a s' ∧ g a = b := by
  rw [map_apply]
  cases hx : x s with
  | ok a s₁ =>
      constructor
      · rintro ⟨⟩
        exact ⟨a, rfl, rfl⟩
      · rintro ⟨a', ⟨⟩, rfl⟩
        rfl
  | error e s₁ => simp

theorem adaptExcept_eq_ok {ε' : Type} {g : ε → ε'} :
    EStateM.adaptExcept g x s = .ok a s' ↔ x s = .ok a s' := by
  rw [adaptExcept_apply]
  cases x s <;> simp

/-! ### Invariants kept by a computation -/

/-- Whenever `x` succeeds from a state satisfying `P`, the new state
satisfies `P`. A structure, so that its closure lemmas apply only to goals
that have its form. -/
structure Keeps (P : σ → Prop) (x : EStateM ε σ α) : Prop where
  keeps : ∀ s a s', P s → x s = .ok a s' → P s'

variable {P : σ → Prop}

theorem Keeps.bind (hx : Keeps P x) (hf : ∀ a, Keeps P (f a)) : Keeps P (x >>= f) := by
  constructor
  intro s b s' hs h
  obtain ⟨a, s₁, h₁, h₂⟩ := bind_eq_ok.mp h
  exact (hf a).keeps s₁ b s' (hx.keeps s a s₁ hs h₁) h₂

theorem keeps_pure (a : α) : Keeps P (pure a : EStateM ε σ α) := by
  constructor
  intro s b s' hs h
  cases h
  exact hs

theorem keeps_throw (e : ε) : Keeps P (throw e : EStateM ε σ α) := by
  constructor
  intro s b s' _ h
  cases h

theorem keeps_get : Keeps P (get : EStateM ε σ σ) := by
  constructor
  intro s a s' hs h
  rw [get_apply] at h
  cases h
  exact hs

theorem keeps_modify {g : σ → σ} (hg : ∀ s, P s → P (g s)) : Keeps P (modify g : EStateM ε σ PUnit) := by
  constructor
  intro s a s' hs h
  rw [modify_apply] at h
  cases h
  exact hg s hs

theorem Keeps.ite {c : Prop} [Decidable c] {y : EStateM ε σ α} (hx : Keeps P x) (hy : Keeps P y) :
    Keeps P (if c then x else y) := by
  split
  · exact hx
  · exact hy

/-! ### The state after a call

An object whose method failed has been changed by it and is used again, so
an invariant of the object is stated of the state after every outcome. -/

/-- The state a computation leaves, whether it returned or raised. -/
def after : EStateM.Result ε σ α → σ
  | .ok _ s => s
  | .error _ s => s

@[simp] theorem after_ok (a : α) (s : σ) : after (.ok a s : EStateM.Result ε σ α) = s := rfl

@[simp] theorem after_error (e : ε) (s : σ) : after (.error e s : EStateM.Result ε σ α) = s := rfl

/-- `x` keeps `P` in the state it leaves, whether it returns or raises. -/
structure KeepsAfter (P : σ → Prop) (x : EStateM ε σ α) : Prop extends Keeps P x where
  error : ∀ s e s', P s → x s = .error e s' → P s'

theorem KeepsAfter.of_after (h : ∀ s, P s → P (after (x s))) : KeepsAfter P x where
  keeps s a s' hs hx := by simpa [hx] using h s hs
  error s e s' hs hx := by simpa [hx] using h s hs

theorem KeepsAfter.holds (h : KeepsAfter P x) (s : σ) (hs : P s) : P (after (x s)) := by
  cases hx : x s with
  | ok a s' => exact h.keeps s a s' hs hx
  | error e s' => exact h.error s e s' hs hx

theorem KeepsAfter.bind (hx : KeepsAfter P x) (hf : ∀ a, KeepsAfter P (f a)) :
    KeepsAfter P (x >>= f) :=
  .of_after fun s hs => by
    rw [bind_apply]
    cases hxs : x s with
    | ok a s₁ => exact (hf a).holds s₁ (hx.keeps s a s₁ hs hxs)
    | error e s₁ => exact hx.error s e s₁ hs hxs

theorem keepsAfter_pure (a : α) : KeepsAfter P (pure a : EStateM ε σ α) :=
  .of_after fun _ hs => hs

theorem keepsAfter_throw (e : ε) : KeepsAfter P (throw e : EStateM ε σ α) :=
  .of_after fun _ hs => hs

theorem KeepsAfter.ite {c : Prop} [Decidable c] {y : EStateM ε σ α} (hx : KeepsAfter P x)
    (hy : KeepsAfter P y) : KeepsAfter P (if c then x else y) := by
  split
  · exact hx
  · exact hy

/-! ### `Except`

A computation without state is peeled the same way: a step known to succeed
is rewritten away. -/

@[simp] theorem except_ok_bind {γ : Type} (a : α) (f : α → Except γ β) :
    (Except.ok a >>= f) = f a := rfl

@[simp] theorem except_pure {γ : Type} (a : α) : (pure a : Except γ α) = Except.ok a := rfl

theorem except_bind_eq_ok {γ : Type} {x : Except γ α} {g : α → Except γ β} :
    (x >>= g) = .ok b ↔ ∃ a, x = .ok a ∧ g a = .ok b := by
  cases x with
  | error e => simp [bind, Except.bind]
  | ok a => simp [bind, Except.bind]

end GoEthereum.StateM
