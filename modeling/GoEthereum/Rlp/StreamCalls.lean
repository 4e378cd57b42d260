import GoEthereum.Rlp.StreamInv
import GoEthereum.Data.StateM

/-!
The calls of a `Stream` that `Stream.lean` leaves out (`Raw`, `Bool` and
`Reset`), and the bookkeeping of the open lists over every run of calls.

Every read of `n` bytes goes through `willRead`, which charges them to the
innermost open list and to the input limit; `List` opens a list that fits
the one around it and `ListEnd` closes it only at its end. So in every
stream a run of calls reaches after a `Reset` each open list has read at
most its size and lies within the list around it (`Sound`), and no call
reads past the end of the innermost list (`Call.consumed_le`). For a string
of 56 bytes or more `Raw` passes `0xB8` to `puthead` where the encoder
passes `0xB7`, so the tag comes out one higher (`raw_long_string_header`).
-/

namespace GoEthereum.Rlp

namespace Stream

open GoEthereum.StateM (after after_ok after_error)
open GoEthereum.BigEndian (width width_pos width_eq_of_bounds)

/-- `Stream.Raw`: a single byte as it is, and any other value's payload
behind a header written afresh. -/
def raw : StreamM (List UInt8) := fun s =>
  match nextKind s with
  | .error e s => .error e s
  | .ok (.byte, _) s => .ok [s.byteval] { s with kind := none }
  | .ok (k, size) s =>
      match readFull size s with
      | .error e s => .error e s
      | .ok content s =>
          .ok ((if k = .string then puthead 0x80 0xB8 size else puthead 0xC0 0xF7 size) ++ content) s

/-- The errors of `Bool`: the stream's, and a value other than 0 and 1. -/
inductive BoolError where
  | stream (e : Error)
  /-- `rlp: invalid boolean value: %d` -/
  | invalidBoolean (num : Nat)
  deriving Repr, DecidableEq

/-- `Stream.Bool`. -/
def bool : EStateM BoolError Stream Bool := fun s =>
  match uint 8 s with
  | .error e s => .error (.stream e) s
  | .ok 0 s => .ok false s
  | .ok 1 s => .ok true s
  | .ok num s => .error (.invalidBoolean num) s

/-- `Stream.Reset` with a reader over `b`. `sized` says whether the reader is
a `*bytes.Reader` or a `*strings.Reader`, whose length stands in for a zero
limit; any other reader leaves the stream without a limit. -/
def reset (b : List UInt8) (inputLimit : Nat) (sized : Bool) : StreamM Unit := fun s =>
  let s :=
    if inputLimit > 0 then { s with remaining := inputLimit, limited := true }
    else if sized then { s with remaining := b.length, limited := true }
    else { s with limited := false }
  .ok () { s with r := b, stack := [], size := 0, kind := none, kinderr := none }

/-! ### The open lists -/

/-- An open list lies within the list around it: the outer position, which
counts the inner list's header, leaves room for its payload. -/
def Encloses (inner outer : ListPos) : Prop := outer.pos + inner.size ≤ outer.size

/-- The open lists, innermost first: each has read at most its size and lies
within the one around it. -/
def ListsSound (stack : List ListPos) : Prop :=
  (∀ l ∈ stack, l.pos ≤ l.size) ∧ stack.IsChain Encloses

/-- The open lists after reading in the innermost one and opening lists
inside it. -/
def Grows (S S' : List ListPos) : Prop := ∃ news k, S' = news ++ bump S k

@[simp] theorem bump_cons (tos : ListPos) (outer : List ListPos) (k : Nat) :
    bump (tos :: outer) k = { tos with pos := tos.pos + k } :: outer := rfl

theorem bump_ne_nil {S : List ListPos} (h : S ≠ []) (k : Nat) : bump S k ≠ [] := by
  cases S with
  | nil => exact absurd rfl h
  | cons tos outer => simp

/-- What a bump adds to the positions of a nonempty stack. -/
theorem sum_pos_bump {S : List ListPos} (h : S ≠ []) (k : Nat) :
    ((bump S k).map ListPos.pos).sum = (S.map ListPos.pos).sum + k := by
  cases S with
  | nil => exact absurd rfl h
  | cons tos outer => simp; omega

theorem Grows.refl (S : List ListPos) : Grows S S := ⟨[], 0, by simp⟩

theorem Grows.trans {S₁ S₂ S₃ : List ListPos} (h₁ : Grows S₁ S₂) (h₂ : Grows S₂ S₃) : Grows S₁ S₃ := by
  obtain ⟨news₁, k₁, rfl⟩ := h₁
  obtain ⟨news₂, k₂, rfl⟩ := h₂
  cases news₁ with
  | nil => exact ⟨news₂, k₁ + k₂, by simp [bump_bump]⟩
  | cons n ns => exact ⟨news₂ ++ { n with pos := n.pos + k₂ } :: ns, k₁, by simp⟩

theorem Grows.ne_nil {S S' : List ListPos} (h : Grows S S') (hS : S ≠ []) : S' ≠ [] := by
  obtain ⟨news, k, rfl⟩ := h
  simp [bump_ne_nil hS]

/-- Closing the innermost list of a stack that grew from `t :: S` leaves a
stack that grew from `S`: the list closed is `t` or one opened inside it. -/
theorem Grows.pop {t tos : ListPos} {S rest : List ListPos} (h : Grows (t :: S) (tos :: rest)) :
    Grows S (bump rest tos.size) := by
  obtain ⟨news, k, hst⟩ := h
  cases news with
  | nil =>
    obtain ⟨-, hrest⟩ := List.cons.inj hst
    exact ⟨[], tos.size, by simp [hrest]⟩
  | cons n ns =>
    obtain ⟨htos, hrest⟩ := List.cons.inj hst
    rw [hrest]
    cases ns with
    | nil => exact ⟨[{ t with pos := t.pos + k + tos.size }], 0, by simp⟩
    | cons m ms => exact ⟨{ m with pos := m.pos + tos.size } :: ms ++ [{ t with pos := t.pos + k }], 0, by simp⟩

theorem ListsSound.bump {S : List ListPos} (h : ListsSound S) {k : Nat}
    (hroom : ∀ tos ∈ S.head?, tos.pos + k ≤ tos.size) : ListsSound (bump S k) := by
  obtain ⟨hpos, hchain⟩ := h
  cases S with
  | nil => exact ⟨by simp [Stream.bump], .nil⟩
  | cons tos outer =>
    have htos := hroom tos rfl
    refine ⟨?_, ?_⟩
    · simp only [bump_cons, List.mem_cons, forall_eq_or_imp]
      exact ⟨htos, fun l hl => hpos l (List.mem_cons_of_mem _ hl)⟩
    · -- the chain only reads the sizes of inner lists and the positions of outer ones
      cases outer with
      | nil => exact .singleton _
      | cons o rest => exact List.isChain_cons_cons.mpr ⟨(List.isChain_cons_cons.mp hchain).1,
          (List.isChain_cons_cons.mp hchain).2⟩

/-- Opening a list of `n` bytes inside one with room for them. -/
theorem ListsSound.push {S : List ListPos} (h : ListsSound S) {n : Nat}
    (hroom : ∀ o ∈ S.head?, o.pos + n ≤ o.size) : ListsSound (⟨0, n⟩ :: S) := by
  obtain ⟨hpos, hchain⟩ := h
  refine ⟨?_, ?_⟩
  · simp only [List.mem_cons, forall_eq_or_imp]
    exact ⟨Nat.zero_le n, hpos⟩
  · cases S with
    | nil => exact .singleton _
    | cons o rest => exact List.isChain_cons_cons.mpr ⟨hroom o rfl, hchain⟩

/-- Closing the innermost list at its end charges its size to the list around
it, which has room for it. -/
theorem ListsSound.pop {tos : ListPos} {S : List ListPos} (h : ListsSound (tos :: S)) :
    ListsSound (Stream.bump S tos.size) := by
  obtain ⟨hpos, hchain⟩ := h
  refine ListsSound.bump ⟨fun l hl => hpos l (List.mem_cons_of_mem _ hl), hchain.tail⟩ ?_
  intro o ho
  cases S with
  | nil => simp at ho
  | cons o' rest =>
    obtain rfl : o' = o := Option.some.inj ho
    exact (List.isChain_cons_cons.mp hchain).1

/-- The positions of the lists inside an open list, and its own, add up to at
most its size. -/
theorem ListsSound.sum_le {news : List ListPos} {m : ListPos} {rest : List ListPos}
    (h : ListsSound (news ++ m :: rest)) : (news.map ListPos.pos).sum + m.pos ≤ m.size := by
  match news, h with
  | [], h => simpa using h.1 m (by simp)
  | [n], h =>
    -- close `n`: what it read moves to `m`
    have hn : n.pos ≤ n.size := h.1 n (by simp)
    have := @ListsSound.sum_le [] { m with pos := m.pos + n.size } rest
      (by simpa using ListsSound.pop h)
    simp at this ⊢
    omega
  | n :: n' :: ns, h =>
    -- close `n`: what it read moves to `n'`
    have hn : n.pos ≤ n.size := h.1 n (by simp)
    have := @ListsSound.sum_le ({ n' with pos := n'.pos + n.size } :: ns) m rest
      (by simpa using ListsSound.pop h)
    simp at this ⊢
    omega
termination_by news.length

/-! ### Sound streams, and what a call does to one -/

/-- A stream after `Reset` put the input `b` under it with the limit `L`:
its open lists are sound, a kind it caches without error fits them, and what
it read of `b` is within the limit. -/
structure Sound (b : List UInt8) (L : Nat) (s : Stream) : Prop where
  lists : ListsSound s.stack
  cached : ∀ k, s.kind = some k → s.kinderr = none → kindCheck s s.size = none
  suffix : s.r <:+ b
  limit : s.limited = true → b.length - s.r.length + s.remaining ≤ L

/-- The bytes not yet read and those charged to the open lists. -/
def tally (s : Stream) : Nat := s.r.length + (s.stack.map ListPos.pos).sum

/-- What a call does to a sound stream: it stays sound, its tally does not go
down while a list is open, and its open lists only grow. -/
structure Moves (b : List UInt8) (L : Nat) (s s' : Stream) : Prop where
  sound : Sound b L s'
  tally : s.stack ≠ [] → s.tally ≤ s'.tally
  grows : Grows s.stack s'.stack

section Moves

variable {b : List UInt8} {L : Nat} {s s₁ s₂ : Stream}

theorem Moves.refl (h : Sound b L s) : Moves b L s s := ⟨h, fun _ => le_rfl, Grows.refl _⟩

theorem Moves.trans (h₁ : Moves b L s s₁) (h₂ : Moves b L s₁ s₂) : Moves b L s s₂ :=
  ⟨h₂.sound, fun hs => (h₁.tally hs).trans (h₂.tally (h₁.grows.ne_nil hs)), h₁.grows.trans h₂.grows⟩

/-- Only the fields of the kind read next changed, and `Kind` is rearmed. -/
theorem Moves.scratch (h : Moves b L s s₁) {s' : Stream} (hr : s'.r = s₁.r) (hrem : s'.remaining = s₁.remaining)
    (hlim : s'.limited = s₁.limited) (hst : s'.stack = s₁.stack) (hk : s'.kind = none) : Moves b L s s' := by
  obtain ⟨⟨hlists, -, hsuf, hlimit⟩, htally, hgrows⟩ := h
  refine ⟨⟨hst ▸ hlists, fun _ hk' => by simp [hk] at hk', hr ▸ hsuf, fun hl => ?_⟩, ?_, hst ▸ hgrows⟩
  · rw [hr, hrem]
    exact hlimit (hlim ▸ hl)
  · intro hs
    simpa [Stream.tally, hr, hst] using htally hs

theorem Moves.rearm (h : Moves b L s s₁) : Moves b L s { s₁ with kind := none } :=
  h.scratch rfl rfl rfl rfl rfl

theorem Moves.byteval (h : Moves b L s s₁) (x : UInt8) : Moves b L s { s₁ with byteval := x } :=
  ⟨⟨h.sound.lists, h.sound.cached, h.sound.suffix, h.sound.limit⟩, h.tally, h.grows⟩

/-- A kind read afresh is cached, with an error if it does not fit. -/
theorem Moves.cache (h : Moves b L s s₁) {k : Kind} {n : Nat} {err : Option Error}
    (hfit : err = none → kindCheck s₁ n = none) :
    Moves b L s { s₁ with kind := some k, size := n, kinderr := err } :=
  ⟨⟨h.sound.lists, fun _ _ he => hfit he, h.sound.suffix, h.sound.limit⟩, h.tally, h.grows⟩

/-- A read of `n` bytes that the innermost list and the limit have room for;
`r'` is what is left of the input, at most `n` bytes shorter. -/
theorem Moves.advance (h : Sound b L s) {n : Nat} (hroom : Room s n) {r' : List UInt8}
    (hr : r' <:+ s.r) (hlen : s.r.length ≤ r'.length + n) : Moves b L s { s.advance n with r := r' } := by
  refine ⟨⟨?_, fun _ hk => by simp [Stream.advance] at hk, hr.trans h.suffix, fun hl => ?_⟩, fun hs => ?_,
    ⟨[], n, rfl⟩⟩
  · refine h.lists.bump fun tos htos => ?_
    have := hroom.1 tos htos
    have := h.lists.1 tos (List.mem_of_mem_head? htos)
    omega
  · have hl' : s.limited = true := hl
    have := h.limit hl'
    have := hroom.2 hl'
    have := hr.length_le
    simp only [Stream.advance, hl', if_true]
    omega
  · simp only [Stream.tally, Stream.advance, sum_pos_bump hs]
    omega

/-- A read that the innermost list has room for but the limit has not: the
list has moved on, nothing was read. -/
theorem Moves.charge (h : Sound b L s) {tos : ListPos} {outer : List ListPos} (hst : s.stack = tos :: outer)
    {n : Nat} (hroom : n ≤ tos.size - tos.pos) :
    Moves b L s { s with kind := none, stack := { tos with pos := tos.pos + n } :: outer } := by
  have hle : tos.pos ≤ tos.size := h.lists.1 tos (by simp [hst])
  have hbump : { tos with pos := tos.pos + n } :: outer = bump s.stack n := by rw [hst, bump_cons]
  refine ⟨⟨?_, fun _ hk => by simp at hk, h.suffix, h.limit⟩, fun hs => ?_, ⟨[], n, by simp [hbump]⟩⟩
  · rw [hbump]
    exact h.lists.bump fun tos' htos => by rw [hst] at htos; cases htos; omega
  · simp only [Stream.tally, hbump, sum_pos_bump hs]
    omega

end Moves

/-! ### The reads -/

section Reads

variable {b : List UInt8} {L : Nat} {s : Stream}

theorem willRead_moves (h : Sound b L s) (n : Nat) : Moves b L s (after (willRead n s)) := by
  cases hw : willRead n s with
  | ok u s' =>
    obtain ⟨hroom, rfl⟩ := willRead_inv hw
    exact Moves.advance h hroom (List.suffix_refl s.r) (by omega)
  | error e s' =>
    -- no room in the innermost list, or none in the limit after the list moved on
    rw [after_error]
    unfold willRead checkLimit at hw
    match hst : s.stack with
    | [] =>
      simp only [hst] at hw
      split_ifs at hw
      cases hw
      exact (Moves.refl h).scratch rfl rfl rfl hst.symm rfl
    | tos :: outer =>
      simp only [hst] at hw
      split_ifs at hw with hroom <;> cases hw
      · exact (Moves.refl h).scratch rfl rfl rfl hst.symm rfl
      · exact Moves.charge h hst (by omega)

theorem readByte_moves (h : Sound b L s) : Moves b L s (after (readByte s)) := by
  unfold readByte
  cases hw : willRead 1 s with
  | error e s₁ => simpa [hw] using willRead_moves h 1
  | ok u s₁ =>
    obtain ⟨hroom, rfl⟩ := willRead_inv hw
    simp only [advance_r]
    cases hr : s.r with
    | nil =>
      exact Moves.advance h hroom (List.suffix_refl s.r) (by omega)
    | cons x rest =>
      exact Moves.advance h hroom (show rest <:+ s.r by simp [hr]) (by simp [hr])

theorem readFull_moves (h : Sound b L s) (n : Nat) : Moves b L s (after (readFull n s)) := by
  unfold readFull
  cases hw : willRead n s with
  | error e s₁ => simpa [hw] using willRead_moves h n
  | ok u s₁ =>
    obtain ⟨hroom, rfl⟩ := willRead_inv hw
    simp only [advance_r]
    by_cases hle : n ≤ s.r.length
    · simp only [hle, if_true, after_ok]
      exact Moves.advance h hroom (List.drop_suffix n s.r) (by simp; omega)
    · -- the input ended: what was left of it is gone
      simp only [hle, if_false, after_error]
      exact Moves.advance h hroom (List.nil_suffix : [] <:+ s.r) (by omega)

theorem readUint_moves (h : Sound b L s) (size : Nat) : Moves b L s (after (readUint size s)) := by
  match size with
  | 0 => exact (Moves.refl h).rearm
  | 1 =>
    have := readByte_moves h
    simp only [readUint]
    cases hb : readByte s <;> simpa [hb] using this
  | k + 2 =>
    have := readFull_moves h (k + 2)
    simp only [readUint]
    cases hf : readFull (k + 2) s with
    | error e s₁ => simpa [hf] using this
    | ok buf s₁ =>
      rw [hf, after_ok] at this
      dsimp only
      split_ifs <;> exact this

theorem readKind_moves (h : Sound b L s) : Moves b L s (after (readKind s)) := by
  unfold readKind
  have hbyte := readByte_moves h
  cases hb : readByte s with
  | error e s₁ => simpa [hb] using hbyte
  | ok x s₁ =>
    rw [hb, after_ok] at hbyte
    have h₀ := hbyte.byteval 0
    -- a long size is read after the tag; every other tag is read alone
    have hlong : ∀ w, Moves b L s (after (readUint w { s₁ with byteval := 0 })) :=
      fun w => h₀.trans (readUint_moves h₀.sound w)
    dsimp only
    split_ifs
    · exact h₀.byteval x
    · exact h₀
    · cases hu : readUint (x - 0xB7).toNat { s₁ with byteval := 0 } <;> simpa [hu] using hlong (x - 0xB7).toNat
    · exact h₀
    · cases hu : readUint (x - 0xF7).toNat { s₁ with byteval := 0 } <;> simpa [hu] using hlong (x - 0xF7).toNat

/-- `Kind` on a fresh value caches the kind it read, and an error unless the
value fits the list around it or the limit. -/
theorem nextKind_moves (h : Sound b L s) : Moves b L s (after (nextKind s)) := by
  unfold nextKind
  cases hk : s.kind with
  | some k => cases s.kinderr <;> exact Moves.refl h
  | none =>
    have h₁ : Moves b L s { s with kind := none, kinderr := none } := (Moves.refl h).scratch rfl rfl rfl rfl rfl
    dsimp only
    split_ifs
    · exact h₁
    · have hread := h₁.trans (readKind_moves h₁.sound)
      cases hr : readKind { s with kind := none, kinderr := none } with
      | error e t => simpa [hr] using hread
      | ok res t =>
        obtain ⟨k, size, err⟩ := res
        rw [hr, after_ok] at hread
        dsimp only
        cases hc : err.or (kindCheck t size) with
        | none => exact hread.cache fun _ => (Option.or_eq_none_iff.mp hc).2
        | some e => exact hread.cache fun he => by cases he

/-- The cache that `Kind` leaves after it returned. -/
theorem nextKind_ok_cached {k : Kind} {n : Nat} {s' : Stream} (h : nextKind s = .ok (k, n) s') :
    s'.kind = some k ∧ s'.kinderr = none ∧ s'.size = n := by
  unfold nextKind at h
  cases hk : s.kind with
  | some k' =>
    rw [hk] at h
    cases he : s.kinderr with
    | none =>
      simp only [he, EStateM.Result.ok.injEq, Prod.mk.injEq] at h
      obtain ⟨⟨rfl, rfl⟩, rfl⟩ := h
      exact ⟨hk, he, rfl⟩
    | some e => simp [he] at h
  | none =>
    rw [hk] at h
    dsimp only at h
    split_ifs at h
    cases hr : readKind { s with kind := none, kinderr := none } with
    | error e t => simp [hr] at h
    | ok res t =>
      obtain ⟨k', size, err⟩ := res
      simp only [hr] at h
      cases hc : err.or (kindCheck t size) with
      | none =>
        simp only [hc, EStateM.Result.ok.injEq, Prod.mk.injEq] at h
        obtain ⟨⟨rfl, rfl⟩, rfl⟩ := h
        exact ⟨rfl, rfl, rfl⟩
      | some e => simp [hc] at h

end Reads

/-! ### The methods and the decoders -/

section Methods

variable {b : List UInt8} {L : Nat} {s s₁ : Stream}

theorem bytes_moves (h : Sound b L s) : Moves b L s (after (bytes s)) := by
  have hkind := nextKind_moves h
  unfold bytes
  cases hn : nextKind s with
  | error e s₁ => simpa [hn] using hkind
  | ok res s₁ =>
    obtain ⟨k, size⟩ := res
    rw [hn, after_ok] at hkind
    cases k with
    | byte => exact hkind.rearm
    | string =>
      have hfull := hkind.trans (readFull_moves hkind.sound size)
      dsimp only
      cases hf : readFull size s₁ with
      | error e s₂ => simpa [hf] using hfull
      | ok bs s₂ =>
        rw [hf, after_ok] at hfull
        dsimp only
        split_ifs <;> exact hfull
    | list => exact hkind

theorem raw_moves (h : Sound b L s) : Moves b L s (after (raw s)) := by
  have hkind := nextKind_moves h
  unfold raw
  cases hn : nextKind s with
  | error e s₁ => simpa [hn] using hkind
  | ok res s₁ =>
    obtain ⟨k, size⟩ := res
    rw [hn, after_ok] at hkind
    have hfull := hkind.trans (readFull_moves hkind.sound size)
    cases k with
    | byte => exact hkind.rearm
    | string | list => cases hf : readFull size s₁ <;> simpa [hf] using hfull

theorem uint_moves (h : Sound b L s) (maxbits : Nat) : Moves b L s (after (uint maxbits s)) := by
  have hkind := nextKind_moves h
  unfold uint
  cases hn : nextKind s with
  | error e s₁ => simpa [hn] using hkind
  | ok res s₁ =>
    obtain ⟨k, size⟩ := res
    rw [hn, after_ok] at hkind
    cases k with
    | byte =>
      dsimp only
      split_ifs
      · exact hkind
      · exact hkind.rearm
    | string =>
      have hint := hkind.trans (readUint_moves hkind.sound size)
      dsimp only
      split_ifs
      · exact hkind
      · -- every outcome of `readUint` leaves its own stream
        split
        next s₂ heq =>
          rw [heq, after_error] at hint
          exact hint
        next e s₂ _ heq =>
          rw [heq, after_error] at hint
          exact hint
        next v s₂ heq =>
          rw [heq, after_ok] at hint
          split_ifs <;> exact hint
    | list => exact hkind

theorem bool_moves (h : Sound b L s) : Moves b L s (after (bool s)) := by
  have hint := uint_moves h 8
  unfold bool
  split
  all_goals rename_i heq
  all_goals rw [heq] at hint
  all_goals exact hint

/-- `List` opens the list whose kind is cached without error: `Kind` found
that it fits the list around it. -/
theorem Moves.push (h : Moves b L s s₁) {k : Kind} (hk : s₁.kind = some k) (he : s₁.kinderr = none) :
    Moves b L s { s₁ with stack := ⟨0, s₁.size⟩ :: s₁.stack, kind := none, size := 0 } := by
  have hfit := h.sound.cached k hk he
  refine ⟨⟨h.sound.lists.push fun o ho => ?_, fun _ hk' => by simp at hk', h.sound.suffix, h.sound.limit⟩,
    fun hs => ?_, ?_⟩
  · cases hst : s₁.stack with
    | nil => simp [hst] at ho
    | cons o' rest =>
      obtain rfl : o' = o := by simpa [hst] using ho
      have hpos := h.sound.lists.1 o' (by simp [hst])
      simp only [kindCheck, hst, gt_iff_lt, ite_eq_right_iff, reduceCtorEq, imp_false, not_lt] at hfit
      omega
  · simpa [Stream.tally] using h.tally hs
  · obtain ⟨news, k', hg⟩ := h.grows
    exact ⟨⟨0, s₁.size⟩ :: news, k', by simp [hg]⟩

theorem list_moves (h : Sound b L s) : Moves b L s (after (list s)) := by
  have hkind := nextKind_moves h
  unfold list
  cases hn : nextKind s with
  | error e s₁ => simpa [hn] using hkind
  | ok res s₁ =>
    obtain ⟨k, size⟩ := res
    rw [hn, after_ok] at hkind
    obtain ⟨hk, he, hsize⟩ := nextKind_ok_cached hn
    dsimp only
    split_ifs
    · exact hkind
    · rw [← hsize]
      exact hkind.push hk he

/-- `List` returned: it read the header of the list and opened the list. -/
theorem list_ok_opens (h : Sound b L s) {n : Nat} (hl : list s = .ok n s₁) :
    ∃ t, Moves b L s t ∧ s₁.stack = ⟨0, n⟩ :: t.stack ∧ s₁.r = t.r := by
  have hkind := nextKind_moves h
  unfold list at hl
  cases hn : nextKind s with
  | error e t => simp [hn] at hl
  | ok res t =>
    obtain ⟨k, size⟩ := res
    rw [hn, after_ok] at hkind
    rw [hn] at hl
    dsimp only at hl
    split_ifs at hl
    cases hl
    exact ⟨t, hkind, rfl, rfl⟩

/-- A failed `ListEnd` changes nothing. -/
theorem listEnd_error {e : Error} (h : listEnd s = .error e s₁) : s₁ = s := by
  unfold listEnd at h
  split at h
  · cases h
    rfl
  · split_ifs at h
    cases h
    rfl

/-- `ListEnd` closes a list opened on top of `t`: the stream moved from `s`
as far as `t`, then inside the list. -/
theorem Moves.close {t s₂ : Stream} {n : Nat} {tos : ListPos} {rest : List ListPos}
    (ht : Moves b L s t) (hopen : s₁.stack = ⟨0, n⟩ :: t.stack) (hr : s₁.r = t.r)
    (h₂ : Moves b L s₁ s₂) (hst : s₂.stack = tos :: rest) (hend : tos.pos = tos.size) :
    Moves b L s { s₂ with stack := bump rest tos.size, kind := none, size := 0 } := by
  have hpop : Grows t.stack (bump rest tos.size) := by
    have := h₂.grows
    rw [hopen, hst] at this
    exact this.pop
  have hsound : Sound b L { s₂ with stack := bump rest tos.size, kind := none, size := 0 } :=
    ⟨ListsSound.pop (hst ▸ h₂.sound.lists), fun _ hk => by simp at hk, h₂.sound.suffix, h₂.sound.limit⟩
  refine ⟨hsound, fun hs => ?_, ht.grows.trans hpop⟩
  -- the list closed lies inside one of the lists of `t`, which takes on its size
  have hts : t.stack ≠ [] := ht.grows.ne_nil hs
  have hrest : rest ≠ [] := by
    rintro rfl
    exact hpop.ne_nil hts rfl
  have h₁₂ := h₂.tally (by simp [hopen])
  have hst₁ : s₁.tally = t.tally := by simp [Stream.tally, hopen, hr]
  have h₃ : Stream.tally { s₂ with stack := bump rest tos.size, kind := none, size := 0 } = s₂.tally := by
    simp only [Stream.tally, sum_pos_bump hrest, hst, List.map_cons, List.sum_cons]
    omega
  have := ht.tally hs
  omega

theorem decodeSliceElems_moves {α : Type} {elemdec : StreamM α}
    (helem : ∀ s, Sound b L s → Moves b L s (after (elemdec s))) :
    ∀ (fuel : Nat) {s : Stream}, Sound b L s → Moves b L s (after (decodeSliceElems elemdec fuel s))
  | 0, s, h => Moves.refl h
  | fuel + 1, s, h => by
    have hel := helem s h
    simp only [decodeSliceElems]
    split
    next s₁ heq =>
      rw [heq] at hel
      exact hel
    next e s₁ _ heq =>
      rw [heq] at hel
      exact hel
    next v s₁ heq =>
      rw [heq, after_ok] at hel
      have hrest := hel.trans (decodeSliceElems_moves helem fuel hel.sound)
      cases hd : decodeSliceElems elemdec fuel s₁ <;> simpa [hd] using hrest

theorem decodeListSlice_moves {α : Type} {elemdec : StreamM α}
    (helem : ∀ s, Sound b L s → Moves b L s (after (elemdec s))) (fuel : Nat) (h : Sound b L s) :
    Moves b L s (after (decodeListSlice elemdec fuel s)) := by
  have hlist := list_moves h
  unfold decodeListSlice
  cases hl : list s with
  | error e s₁ => simpa [hl] using hlist
  | ok size s₁ =>
    rw [hl, after_ok] at hlist
    obtain ⟨t, ht, hopen, hr⟩ := list_ok_opens h hl
    -- the elements, inside the list just opened
    have helems : Moves b L s₁ (after (if size = 0 then .ok [] s₁ else decodeSliceElems elemdec fuel s₁)) := by
      split_ifs
      · exact Moves.refl hlist.sound
      · exact decodeSliceElems_moves helem fuel hlist.sound
    dsimp only
    cases he : (if size = 0 then (.ok [] s₁ : EStateM.Result Error Stream (List α))
        else decodeSliceElems elemdec fuel s₁) with
    | error e s₂ =>
      rw [he, after_error] at helems
      exact hlist.trans helems
    | ok items s₂ =>
      rw [he, after_ok] at helems
      dsimp only
      cases hend : listEnd s₂ with
      | error e s₃ =>
        rw [listEnd_error hend]
        exact hlist.trans helems
      | ok u s₃ =>
        obtain ⟨tos, rest, hst, hpos, rfl⟩ := listEnd_inv hend
        exact ht.close hopen hr helems hst hpos

theorem decodeInterface_moves :
    ∀ (fuel : Nat) {s : Stream}, Sound b L s → Moves b L s (after (decodeInterface fuel s))
  | 0, s, h => Moves.refl h
  | fuel + 1, s, h => by
    have hkind := nextKind_moves h
    simp only [decodeInterface]
    cases hn : nextKind s with
    | error e s₁ => simpa [hn] using hkind
    | ok res s₁ =>
      obtain ⟨k, size⟩ := res
      rw [hn, after_ok] at hkind
      dsimp only
      split_ifs
      · -- a list: its items, each decoded the same way
        have := hkind.trans
          (decodeListSlice_moves (fun _ h' => decodeInterface_moves fuel h') fuel hkind.sound)
        cases hd : decodeListSlice (decodeInterface fuel) fuel s₁ <;> simpa [hd] using this
      · have := hkind.trans (bytes_moves hkind.sound)
        cases hd : bytes s₁ <;> simpa [hd] using this

theorem decodeBigInt_moves (h : Sound b L s) : Moves b L s (after (decodeBigInt s)) := by
  have hbytes := bytes_moves h
  unfold decodeBigInt
  cases hd : bytes s with
  | error e s₁ => simpa [hd] using hbytes
  | ok bs s₁ =>
    rw [hd, after_ok] at hbytes
    dsimp only
    split_ifs <;> exact hbytes

end Methods

/-! ### Runs of calls -/

/-- The calls a caller makes on a stream: `decode` is `Decode` into an
`interface{}` and `decodeBigInt` into a `*big.Int`. -/
inductive Call where
  | kind
  | bytes
  | raw
  | uint
  | bool
  | list
  | listEnd
  | decode (fuel : Nat)
  | decodeBigInt
  deriving Repr, DecidableEq

/-- The stream a call leaves, whether it returned or failed. -/
def Call.run : Call → Stream → Stream
  | .kind, s => after (nextKind s)
  | .bytes, s => after (Stream.bytes s)
  | .raw, s => after (Stream.raw s)
  | .uint, s => after (Stream.uint 64 s)
  | .bool, s => after (Stream.bool s)
  | .list, s => after (Stream.list s)
  | .listEnd, s => after (Stream.listEnd s)
  | .decode fuel, s => after (decodeInterface fuel s)
  | .decodeBigInt, s => after (Rlp.decodeBigInt s)

/-- The streams that runs of calls reach: `Reset` (which `NewStream` calls on
a new stream) puts the input `b` under the limit `L`, and calls follow it. -/
inductive Reached : List UInt8 → Nat → Stream → Prop
  | reset (s : Stream) (b : List UInt8) (inputLimit : Nat) (sized : Bool) :
      Reached b (if inputLimit > 0 then inputLimit else b.length)
        (after (Stream.reset b inputLimit sized s))
  | call {b : List UInt8} {L : Nat} {s : Stream} (c : Call) : Reached b L s → Reached b L (c.run s)

theorem Sound.reset (s : Stream) (b : List UInt8) (inputLimit : Nat) (sized : Bool) :
    Sound b (if inputLimit > 0 then inputLimit else b.length)
      (after (Stream.reset b inputLimit sized s)) where
  -- `Reset` empties the stack and the cache and starts reading `b` afresh
  lists := ⟨by simp [Stream.reset], by simp [Stream.reset]⟩
  cached _ hk := by simp [Stream.reset] at hk
  suffix := by simp [Stream.reset]
  limit hl := by
    unfold Stream.reset at hl ⊢
    split_ifs at hl ⊢ <;> simp_all

section Runs

variable {b : List UInt8} {L : Nat} {s : Stream}

/-- `ListEnd` keeps the stream sound and reads nothing. -/
theorem listEnd_sound (h : Sound b L s) :
    Sound b L (after (listEnd s)) ∧ (after (listEnd s)).r = s.r := by
  cases hend : listEnd s with
  | error e s₁ =>
    rw [after_error, listEnd_error hend]
    exact ⟨h, rfl⟩
  | ok u s₁ =>
    obtain ⟨tos, rest, hst, -, rfl⟩ := listEnd_inv hend
    have hlists : ListsSound (tos :: rest) := hst ▸ h.lists
    exact ⟨⟨hlists.pop, fun _ hk => (by cases hk), h.suffix, h.limit⟩, rfl⟩

/-- Every call but `ListEnd` reads in the innermost list and opens lists
inside it. -/
theorem Call.moves (h : Sound b L s) : ∀ c : Call, c ≠ .listEnd → Moves b L s (c.run s)
  | .kind, _ => nextKind_moves h
  | .bytes, _ => bytes_moves h
  | .raw, _ => raw_moves h
  | .uint, _ => uint_moves h 64
  | .bool, _ => bool_moves h
  | .list, _ => list_moves h
  | .listEnd, hc => absurd rfl hc
  | .decode fuel, _ => decodeInterface_moves fuel h
  | .decodeBigInt, _ => decodeBigInt_moves h

theorem Call.sound (h : Sound b L s) (c : Call) : Sound b L (c.run s) := by
  by_cases hc : c = .listEnd
  · subst hc
    exact (listEnd_sound h).1
  · exact (Call.moves h c hc).sound

theorem Reached.sound (hs : Reached b L s) : Sound b L s := by
  induction hs with
  | reset s b inputLimit sized => exact Sound.reset s b inputLimit sized
  | call c _ ih => exact Call.sound ih c

/-- A call reads at most what is left of the innermost open list: what it reads is
charged to that list or to lists it opened inside it, all within its size. -/
theorem Call.consumed_le (hs : Reached b L s) {l : ListPos} {outer : List ListPos}
    (hst : s.stack = l :: outer) (c : Call) :
    s.r.length - (c.run s).r.length ≤ l.size - l.pos := by
  have h := hs.sound
  by_cases hc : c = .listEnd
  · subst hc
    show s.r.length - (after (Stream.listEnd s)).r.length ≤ _
    rw [(listEnd_sound h).2, Nat.sub_self]
    exact Nat.zero_le _
  · obtain ⟨hsound, htally, news, k, hgrows⟩ := Call.moves h c hc
    -- the innermost list has been charged `k`, and the lists opened inside
    -- it fit in what it has left
    have hlists : ListsSound (news ++ { l with pos := l.pos + k } :: outer) := by
      rw [← bump_cons, ← hst, ← hgrows]
      exact hsound.lists
    have hsum := hlists.sum_le
    have hle := htally (by simp [hst])
    simp only [Stream.tally, hgrows, hst, bump_cons, List.map_append, List.map_cons,
      List.sum_append, List.sum_cons] at hle hsum
    omega

/-- `ListEnd` returns exactly at the end of the innermost open list. -/
theorem listEnd_ok_iff (s : Stream) :
    (∃ s', listEnd s = .ok () s') ↔ ∃ l outer, s.stack = l :: outer ∧ l.pos = l.size := by
  constructor
  · rintro ⟨s', h⟩
    obtain ⟨tos, outer, hst, hend, -⟩ := listEnd_inv h
    exact ⟨tos, outer, hst, hend⟩
  · rintro ⟨l, outer, hst, hend⟩
    exact ⟨_, listEnd_ok s l outer hst hend⟩

end Runs

/-! ### `Raw` -/

/-- The tag `Raw` writes for a long string with a length field of `w`
bytes, against the one the encoder writes: one higher. -/
theorem long_string_tag (w : Nat) (h1 : 1 ≤ w) (h8 : w ≤ 8) :
    0xB8 + w.toUInt8 = 0x80 + 55 + w.toUInt8 + 1 ∧ 0xB8 + w.toUInt8 ≠ 0x80 + 55 + w.toUInt8 ∧
      0xB8 ≤ 0x80 + 55 + w.toUInt8 ∧ 0x80 + 55 + w.toUInt8 < 0xC0 := by
  interval_cases w <;> decide

/-- What `Raw` returns on a fresh value: the bytes it read, header and
payload, except that a long string comes back with its tag one higher. -/
theorem raw_inv {out : List UInt8} {s' : Stream} (hk : s.kind = none) (h : raw s = .ok out s') :
    ∃ consumed, Consumed s s' consumed ∧
      (out = consumed ∨ ∃ tag rest, consumed = tag :: rest ∧ 0xB8 ≤ tag ∧ tag < 0xC0 ∧
        out = (tag + 1) :: rest) := by
  unfold raw at h
  cases hn : nextKind s with
  | error e s₁ =>
    rw [hn] at h
    cases h
  | ok kn s₁ =>
    obtain ⟨k, n⟩ := kn
    obtain ⟨t, hdr, hcons, hcanon, rfl⟩ := nextKind_inv hk hn
    rw [hn] at h
    -- a single byte is returned as it was read; otherwise the payload is
    -- read behind a header written afresh
    cases k with
    | byte =>
      obtain ⟨rfl, -, -⟩ := hcanon
      cases h
      exact ⟨_, hcons, .inl rfl⟩
    | string =>
      obtain ⟨rfl, hn64⟩ := hcanon
      dsimp only at h
      split at h
      · cases h
      · rename_i content t₂ hfull
        cases h
        obtain ⟨-, hle, rfl, rfl⟩ := readFull_inv hfull
        have hread := Consumed.of_readFull t n hle
        rw [if_pos rfl]
        by_cases hshort : n < 56
        · -- the short header is the one read
          refine ⟨_, hcons.trans hread, .inl ?_⟩
          rw [puthead, lengthPrefix, if_pos hshort, if_pos hshort]
        · -- the long header's tag is `0xB8 + w` where the input had `0xB7 + w`
          obtain ⟨htag, -, hlo, hhi⟩ := long_string_tag (width n) (width_pos n) (width_le_eight n hn64)
          refine ⟨_, hcons.trans hread, .inr ⟨_, BigEndian.bytes (width n) n ++ t.r.take n, ?_, hlo, hhi, ?_⟩⟩
          · rw [lengthPrefix, if_neg hshort, List.cons_append]
          · rw [puthead, if_neg hshort, length_putint n hn64, putint_eq n hn64, htag, List.cons_append]
    | list =>
      obtain ⟨rfl, hn64⟩ := hcanon
      dsimp only at h
      split at h
      · cases h
      · rename_i content t₂ hfull
        cases h
        obtain ⟨-, hle, rfl, rfl⟩ := readFull_inv hfull
        have hhead : puthead 0xC0 0xF7 n = lengthPrefix 0xC0 n := puthead_eq 0xC0 n hn64
        refine ⟨_, hcons.trans (Consumed.of_readFull t n hle), .inl ?_⟩
        rw [if_neg (by decide), hhead]

/-- `Raw` on the canonical encoding of a string of 56 bytes or more, read
from a new stream: the payload comes back behind a tag one higher than the
input's, which is not the encoding it read. -/
theorem raw_long_string_header {content : List UInt8} (h56 : 56 ≤ content.length)
    (h64 : content.length < 2 ^ 64) :
    ∃ s', raw (newStream (rlpBytes content) 0) =
        .ok (puthead 0x80 0xB8 content.length ++ content) s' ∧
      puthead 0x80 0xB8 content.length ++ content ≠ rlpBytes content := by
  have hshort : ¬ content.length < 56 := by omega
  have hsingle : isSingleByte content = false := by
    match content, h56 with
    | _ :: _ :: _, _ => rfl
  have henc : rlpBytes content = lengthPrefix 0x80 content.length ++ content := by
    rw [rlpBytes, hsingle]
    rfl
  obtain ⟨htag, hne, -, -⟩ := long_string_tag (width content.length) (width_pos _)
    (width_le_eight _ h64)
  -- `Kind` reads the header, which leaves room for the payload
  have hroom : Room (newStream (rlpBytes content) 0)
      ((lengthPrefix 0x80 content.length).length + content.length) :=
    ⟨by simp [newStream], by simp [newStream, henc]⟩
  obtain ⟨t, hread, hadv⟩ := readKind_lengthPrefix { newStream (rlpBytes content) 0 with kinderr := none }
    0x80 .string (.inl ⟨rfl, rfl⟩) content.length content h64 (by simp [newStream, henc])
    (hroom.mono (Nat.le_add_right _ _))
  have hnext := nextKind_of_readKind _ t .string _ content.length rfl hread hadv
    (by rw [length_lengthPrefix]; split <;> omega) hroom
  -- `Raw` then reads the payload, the rest of the input
  have hr : t.r = content ++ [] := by
    rw [hadv.1, List.append_nil]
    simp [newStream, henc]
  have hfull := readFull_ok { t with kind := some .string, size := content.length, kinderr := none }
    content [] hr (Room.of_advanced hadv hroom)
  refine ⟨{ { t with kind := some .string, size := content.length, kinderr := none }.advance
    content.length with r := [] }, ?_, ?_⟩
  · unfold raw
    rw [hnext]
    dsimp only
    rw [hfull, if_pos rfl]
  · rw [henc, puthead, lengthPrefix, if_neg hshort, if_neg hshort, length_putint _ h64,
      putint_eq _ h64]
    intro heq
    exact hne (List.cons.inj heq).1

/-- The input `B8 38` and 56 zero bytes comes back from `Raw` as `B9 38`
and the same bytes. -/
theorem raw_long_string_header_56 :
    ∃ s', raw (newStream (0xB8 :: 0x38 :: List.replicate 56 0) 0) =
      .ok (0xB9 :: 0x38 :: List.replicate 56 0) s' := by
  obtain ⟨s', h, -⟩ := @raw_long_string_header (List.replicate 56 0) (by simp) (by simp)
  have hw : width 56 = 1 := width_eq_of_bounds 56 1 (by norm_num) (by omega) (by norm_num)
  have henc : rlpBytes (List.replicate 56 (0 : UInt8)) = 0xB8 :: 0x38 :: List.replicate 56 0 := by
    rw [rlpBytes, if_neg (by decide), List.length_replicate, lengthPrefix, if_neg (by norm_num), hw]
    decide
  have hhead : puthead 0x80 0xB8 (List.replicate 56 (0 : UInt8)).length = [0xB9, 0x38] := by
    decide
  rw [henc, hhead] at h
  exact ⟨s', h⟩

end Stream

end GoEthereum.Rlp
