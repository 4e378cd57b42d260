import Mathlib
import GoEthereum.Whisper.Message

/-!
The envelope pool of whisper v5 (whisper/whisperv5/whisper.go): the
envelopes a node holds by hash, the hashes of each expiry time
(`expirations`), and the decrypted messages by the hash of their envelope.
`add` checks an envelope against the clock and its sizes, drops one that is
expired or of too little proof of work, and caches a new one under its hash
and its expiry; `expire` drops every envelope and message of an expiry time
that has come.

Every pool a node reaches is `Indexed`: each envelope is stored under its
own hash and indexed under its own expiry, and each indexed hash is an
envelope of that expiry (`run_Indexed`). On such a pool `expire` drops
exactly the envelopes whose expiry has come (`run_expire`).
-/

namespace GoEthereum.Whisper

def saltLength : Nat := 12
def AESNonceMaxLength : Nat := 12
def SynchAllowance : UInt32 := 10

structure Envelope where
  Version : Bytes
  Expiry : UInt32
  TTL : UInt32
  Topic : Bytes
  Salt : Bytes
  AESNonce : Bytes
  Data : Bytes
  EnvNonce : UInt64
  deriving DecidableEq, Repr

/-- The errors of add, each with the hash of the envelope its text shows. -/
inductive AddError (H : Type)
  | future (hash : H)
  | veryOld
  | huge (hash : H)
  | oversizedVersion (hash : H)
  | oversizedAESNonce (hash : H)
  | oversizedSalt (hash : H)
  deriving DecidableEq, Repr

/-- The text of an error, with `hex` for the %x of a hash. -/
def AddError.Error {H : Type} (hex : H → String) : AddError H → String
  | .future hash => "envelope created in the future [" ++ hex hash ++ "]"
  | .veryOld => "very old message"
  | .huge hash => "huge messages are not allowed [" ++ hex hash ++ "]"
  | .oversizedVersion hash => "oversized version [" ++ hex hash ++ "]"
  | .oversizedAESNonce hash => "oversized AESNonce [" ++ hex hash ++ "]"
  | .oversizedSalt hash => "oversized salt [" ++ hex hash ++ "]"

/-- The pool of a Whisper node. -/
structure Pool (H Msg : Type) where
  envelopes : H → Option Envelope
  expirations : List (UInt32 × List H)
  messages : H → Option Msg

def NewWhisper {H Msg : Type} : Pool H Msg := ⟨fun _ => none, [], fun _ => none⟩

section Pool

variable {H Msg : Type} [DecidableEq H]

/-- wh.expirations[expiry].Add(hash), creating the set when there is none. -/
def addExpiration (expirations : List (UInt32 × List H)) (expiry : UInt32) (hash : H) :
    List (UInt32 × List H) :=
  if expirations.any (fun e => e.1 = expiry) then
    expirations.map fun e => if e.1 = expiry ∧ hash ∉ e.2 then (e.1, e.2 ++ [hash]) else e
  else expirations ++ [(expiry, [hash])]

variable (Hash : Envelope → H) (lowPoW : Envelope → UInt32 → Bool) (test : Bool)

/-- add at the clock `now`: an error, or the pool and whether the envelope
was new to it (and so posted to the local node). -/
def Pool.add (wh : Pool H Msg) (now : UInt32) (envelope : Envelope) : Except (AddError H) (Pool H Msg × Bool) := do
  let sent := envelope.Expiry - envelope.TTL
  if sent > now ∧ sent - SynchAllowance > now then throw (.future (Hash envelope))
  -- the seconds the proof of work is taken over, past the TTL
  let diff : UInt32 := if sent > now then sent - now + 1 else 0
  if envelope.Expiry < now then
    if envelope.Expiry + SynchAllowance * 2 < now then throw .veryOld
    -- an expired envelope is dropped without error
    else return (wh, false)
  if envelope.Data.length > MaxMessageLength then throw (.huge (Hash envelope))
  if envelope.Version.length > 4 then throw (.oversizedVersion (Hash envelope))
  if envelope.AESNonce.length > AESNonceMaxLength then throw (.oversizedAESNonce (Hash envelope))
  if envelope.Salt.length > saltLength then throw (.oversizedSalt (Hash envelope))
  -- so is one of too little proof of work
  if lowPoW envelope diff ∧ !test then return (wh, false)
  let hash := Hash envelope
  match wh.envelopes hash with
  | some _ => return (wh, false)
  | none =>
    return ({ wh with
      envelopes := Function.update wh.envelopes hash (some envelope)
      expirations := addExpiration wh.expirations envelope.Expiry hash }, true)

/-- addDecryptedMessage of a message whose envelope has hash `hash`. -/
def Pool.addDecryptedMessage (wh : Pool H Msg) (hash : H) (msg : Msg) : Pool H Msg :=
  { wh with messages := Function.update wh.messages hash (some msg) }

/-- One turn of the loop of expire, over the entry of one expiry time. -/
def Pool.expireEntry (now : UInt32) (w : Pool H Msg) (entry : UInt32 × List H) : Pool H Msg :=
  -- a time in the future is skipped
  if entry.1 > now then w
  else
    -- the envelopes and messages of the time go, and its set is cleared
    { envelopes := entry.2.foldl (fun f hash => Function.update f hash none) w.envelopes
      messages := entry.2.foldl (fun f hash => Function.update f hash none) w.messages
      expirations := w.expirations.map fun e => if e.1 = entry.1 then (e.1, []) else e }

/-- expire at the clock `now`. -/
def Pool.expire (w : Pool H Msg) (now : UInt32) : Pool H Msg :=
  w.expirations.foldl (Pool.expireEntry now) w

/-! ### The expiry index -/

/-- What the size checks of add ask of an envelope. -/
structure Admissible (e : Envelope) : Prop where
  data : e.Data.length ≤ MaxMessageLength
  version : e.Version.length ≤ 4
  nonce : e.AESNonce.length ≤ AESNonceMaxLength
  salt : e.Salt.length ≤ saltLength

/-- Each envelope of the pool is stored under its own hash, passed the size
checks, and is indexed under its own expiry; each indexed hash is an envelope
of the pool of that expiry. -/
structure Indexed (w : Pool H Msg) : Prop where
  stored : ∀ hash e, w.envelopes hash = some e →
    Hash e = hash ∧ Admissible e ∧ ∃ s, (e.Expiry, s) ∈ w.expirations ∧ hash ∈ s
  indexed : ∀ x ∈ w.expirations, ∀ hash ∈ x.2, ∃ e, w.envelopes hash = some e ∧ e.Expiry = x.1

omit [DecidableEq H] in
theorem indexed_NewWhisper : Indexed Hash (NewWhisper : Pool H Msg) :=
  ⟨fun _ _ h => (by cases h), fun _ hx => absurd hx List.not_mem_nil⟩

section AddExpiration

variable {expirations : List (UInt32 × List H)} {expiry : UInt32} {hash : H}

theorem exists_mem_addExpiration (expirations : List (UInt32 × List H)) (expiry : UInt32) (hash : H) :
    ∃ s, (expiry, s) ∈ addExpiration expirations expiry hash ∧ hash ∈ s := by
  unfold addExpiration
  split
  · next hany =>
    obtain ⟨y, hy, hyk⟩ := List.any_eq_true.mp hany
    have hyk' : y.1 = expiry := of_decide_eq_true hyk
    by_cases hin : hash ∈ y.2
    · refine ⟨y.2, List.mem_map.mpr ⟨y, hy, ?_⟩, hin⟩
      rw [if_neg (fun hk => hk.2 hin)]
      exact Prod.ext hyk' rfl
    · refine ⟨y.2 ++ [hash], List.mem_map.mpr ⟨y, hy, ?_⟩, List.mem_append_right _ (List.mem_singleton_self _)⟩
      rw [if_pos ⟨hyk', hin⟩, hyk']
  · exact ⟨[hash], by simp, List.mem_singleton_self _⟩

/-- Every entry keeps its time and its hashes. -/
theorem subset_addExpiration (expiry : UInt32) (hash : H) {y : UInt32 × List H} (hy : y ∈ expirations) :
    ∃ s, (y.1, s) ∈ addExpiration expirations expiry hash ∧ y.2 ⊆ s := by
  unfold addExpiration
  split
  · by_cases hk : y.1 = expiry ∧ hash ∉ y.2
    · exact ⟨y.2 ++ [hash], List.mem_map.mpr ⟨y, hy, by simp [hk]⟩, List.subset_append_left _ _⟩
    · exact ⟨y.2, List.mem_map.mpr ⟨y, hy, by rw [if_neg hk]⟩, List.Subset.refl _⟩
  · exact ⟨y.2, List.mem_append_left _ hy, List.Subset.refl _⟩

/-- An entry after add: an old one, the old one of its time with the hash
added, or a new one of just the hash. -/
theorem mem_addExpiration {x : UInt32 × List H} (hx : x ∈ addExpiration expirations expiry hash) :
    (∃ y ∈ expirations, x.1 = y.1 ∧ (x.2 = y.2 ∨ x.1 = expiry ∧ x.2 = y.2 ++ [hash])) ∨
      x = (expiry, [hash]) := by
  unfold addExpiration at hx
  split at hx
  · obtain ⟨y, hy, rfl⟩ := List.mem_map.mp hx
    refine Or.inl ⟨y, hy, ?_⟩
    split
    · next hk => exact ⟨rfl, Or.inr ⟨hk.1, rfl⟩⟩
    · exact ⟨rfl, Or.inl rfl⟩
  · rcases List.mem_append.mp hx with hx | hx
    · exact Or.inl ⟨x, hx, rfl, Or.inl rfl⟩
    · exact Or.inr (List.mem_singleton.mp hx)

end AddExpiration

/-- What add does to the pool when it returns: nothing, or it caches a new
envelope that passed the size checks and is not expired. -/
theorem add_eq_ok {wh wh' : Pool H Msg} {now : UInt32} {envelope : Envelope} {posted : Bool}
    (h : wh.add Hash lowPoW test now envelope = .ok (wh', posted)) :
    wh' = wh ∨ (Admissible envelope ∧ now ≤ envelope.Expiry ∧ wh.envelopes (Hash envelope) = none ∧
      wh' = { wh with envelopes := Function.update wh.envelopes (Hash envelope) (some envelope)
                      expirations := addExpiration wh.expirations envelope.Expiry (Hash envelope) }) := by
  unfold Pool.add at h
  simp only [bind, Except.bind, pure, Except.pure, throw, throwThe, MonadExceptOf.throw] at h
  -- a guard that fails is an error; one that drops the envelope leaves the pool
  split_ifs at h with _ hexp _ hdata hver hnonce hsalt
  all_goals first
    | exact absurd h Except.noConfusion
    | exact Or.inl (Prod.mk.inj (Except.ok.inj h)).1.symm
    | skip
  -- the envelope passed every check: it is cached unless its hash is
  all_goals
    split at h
    · exact Or.inl (Prod.mk.inj (Except.ok.inj h)).1.symm
    · next hnone =>
      exact Or.inr ⟨⟨by omega, by omega, by omega, by omega⟩, UInt32.not_lt.mp hexp, hnone,
        (Prod.mk.inj (Except.ok.inj h)).1.symm⟩

theorem Indexed.add {wh wh' : Pool H Msg} (hw : Indexed Hash wh) {now : UInt32} {envelope : Envelope}
    {posted : Bool} (h : wh.add Hash lowPoW test now envelope = .ok (wh', posted)) : Indexed Hash wh' := by
  rcases add_eq_ok Hash lowPoW test h with rfl | ⟨hadm, -, hnone, rfl⟩
  · exact hw
  refine ⟨fun hash e he => ?_, fun x hx hash hmem => ?_⟩
  · -- the new envelope under its hash, or an old one under its old entry
    dsimp only at he ⊢
    by_cases hh : hash = Hash envelope
    · subst hh
      rw [Function.update_self, Option.some_inj] at he
      subst he
      exact ⟨rfl, hadm, exists_mem_addExpiration _ _ _⟩
    · rw [Function.update_of_ne hh] at he
      obtain ⟨hhash, hadm', s, hs, hin⟩ := hw.stored hash e he
      obtain ⟨s', hs', hsub⟩ := subset_addExpiration envelope.Expiry (Hash envelope) hs
      exact ⟨hhash, hadm', s', hs', hsub hin⟩
  · -- an old hash is an old envelope, which is not the new one's hash
    dsimp only at hx ⊢
    have hold : ∀ y ∈ wh.expirations, hash ∈ y.2 → y.1 = x.1 →
        ∃ e, Function.update wh.envelopes (Hash envelope) (some envelope) hash = some e ∧ e.Expiry = x.1 := by
      intro y hy hin hyx
      obtain ⟨e, he, hexp⟩ := hw.indexed y hy hash hin
      have hne : hash ≠ Hash envelope := fun heq => by rw [heq, hnone] at he; cases he
      exact ⟨e, by rw [Function.update_of_ne hne, he], hexp.trans hyx⟩
    rcases mem_addExpiration hx with ⟨y, hy, hxy, hx2 | ⟨hxk, hx2⟩⟩ | rfl
    · exact hold y hy (hx2 ▸ hmem) hxy.symm
    · rw [hx2, List.mem_append, List.mem_singleton] at hmem
      rcases hmem with hmem | rfl
      · exact hold y hy hmem hxy.symm
      · exact ⟨envelope, Function.update_self .., hxk.symm⟩
    · rw [List.mem_singleton.mp hmem]
      exact ⟨envelope, Function.update_self .., rfl⟩

theorem Indexed.addDecryptedMessage {wh : Pool H Msg} (hw : Indexed Hash wh) (hash : H) (msg : Msg) :
    Indexed Hash (wh.addDecryptedMessage hash msg) :=
  ⟨hw.stored, hw.indexed⟩

/-! ### Expire -/

section Expire

variable (now : UInt32)

theorem foldl_update_none {α : Type} (l : List H) (f : H → Option α) (hash : H) :
    l.foldl (fun f hash => Function.update f hash none) f hash = if hash ∈ l then none else f hash := by
  induction l generalizing f with
  | nil => simp
  | cons h l ih =>
    rw [List.foldl_cons, ih]
    by_cases hl : hash ∈ l
    · simp [hl]
    · by_cases hh : hash = h
      · subst hh
        simp
      · simp [hl, hh]

/-- The loop of expire drops the envelopes of the times it does not skip. -/
theorem foldl_expireEntry_envelopes (L : List (UInt32 × List H)) (w : Pool H Msg) (hash : H) :
    (L.foldl (Pool.expireEntry now) w).envelopes hash =
      if ∃ y ∈ L, ¬y.1 > now ∧ hash ∈ y.2 then none else w.envelopes hash := by
  induction L generalizing w with
  | nil => simp
  | cons y L ih =>
    rw [List.foldl_cons, ih]
    by_cases hL : ∃ z ∈ L, ¬z.1 > now ∧ hash ∈ z.2
    · obtain ⟨z, hz, hzn⟩ := hL
      rw [if_pos ⟨z, hz, hzn⟩, if_pos ⟨z, List.mem_cons_of_mem y hz, hzn⟩]
    · rw [if_neg hL]
      by_cases hy : ¬y.1 > now ∧ hash ∈ y.2
      · -- the first time drops the hash
        rw [if_pos ⟨y, List.mem_cons_self, hy⟩, Pool.expireEntry, if_neg hy.1]
        dsimp only
        rw [foldl_update_none, if_pos hy.2]
      · -- no time drops it
        have hnone : ¬∃ z ∈ y :: L, ¬z.1 > now ∧ hash ∈ z.2 := by
          rintro ⟨z, hz, hzn⟩
          rcases List.mem_cons.mp hz with rfl | hz
          · exact hy hzn
          · exact hL ⟨z, hz, hzn⟩
        rw [if_neg hnone]
        unfold Pool.expireEntry
        split
        · rfl
        · next hskip =>
          dsimp only
          rw [foldl_update_none, if_neg (fun hin => hy ⟨hskip, hin⟩)]

/-- An entry after the loop was there before, or was cleared. -/
theorem mem_foldl_expireEntry (L : List (UInt32 × List H)) (w : Pool H Msg) {x : UInt32 × List H}
    (hx : x ∈ (L.foldl (Pool.expireEntry now) w).expirations) : x ∈ w.expirations ∨ x.2 = [] := by
  induction L generalizing w with
  | nil => exact Or.inl hx
  | cons y L ih =>
    rcases ih _ hx with hx' | hx'
    · unfold Pool.expireEntry at hx'
      split at hx'
      · exact Or.inl hx'
      · obtain ⟨e, he, rfl⟩ := List.mem_map.mp hx'
        split
        · exact Or.inr rfl
        · exact Or.inl he
    · exact Or.inr hx'

/-- An entry of a time in the future stays. -/
theorem foldl_expireEntry_keeps (L : List (UInt32 × List H)) (w : Pool H Msg) {x : UInt32 × List H}
    (hx : x ∈ w.expirations) (hfuture : x.1 > now) : x ∈ (L.foldl (Pool.expireEntry now) w).expirations := by
  induction L generalizing w with
  | nil => exact hx
  | cons y L ih =>
    apply ih
    unfold Pool.expireEntry
    split
    · exact hx
    · next hy =>
      -- the times cleared are not in the future
      have hne : x.1 ≠ y.1 := fun heq => hy (heq ▸ hfuture)
      exact List.mem_map.mpr ⟨x, hx, by rw [if_neg hne]⟩

/-- The entry of every time the loop does not skip ends cleared. -/
theorem foldl_expireEntry_cleared (L : List (UInt32 × List H)) (w : Pool H Msg) {x : UInt32 × List H}
    (hx : x ∈ (L.foldl (Pool.expireEntry now) w).expirations) (hL : ∃ y ∈ L, ¬y.1 > now ∧ y.1 = x.1) :
    x.2 = [] := by
  induction L generalizing w with
  | nil => obtain ⟨y, hy, -⟩ := hL; cases hy
  | cons y L ih =>
    by_cases hrest : ∃ z ∈ L, ¬z.1 > now ∧ z.1 = x.1
    · exact ih _ hx hrest
    · -- the time was that of the first entry, cleared by its turn and kept cleared
      obtain ⟨z, hz, hzn, hzx⟩ := hL
      rcases List.mem_cons.mp hz with rfl | hz
      · rcases mem_foldl_expireEntry now L _ hx with hx' | hx'
        · unfold Pool.expireEntry at hx'
          rw [if_neg hzn] at hx'
          obtain ⟨e, -, rfl⟩ := List.mem_map.mp hx'
          split
          · rfl
          · next hne =>
            exfalso
            split at hzx
            · exact hne (by assumption)
            · exact hne hzx.symm
        · exact hx'
      · exact absurd ⟨z, hz, hzn, hzx⟩ hrest

variable {w : Pool H Msg}

/-- On an indexed pool, expire drops exactly the envelopes whose expiry has
come. -/
theorem Indexed.expire_envelopes (hw : Indexed Hash w) (hash : H) :
    (w.expire now).envelopes hash = (w.envelopes hash).filter fun e => e.Expiry > now := by
  rw [Pool.expire, foldl_expireEntry_envelopes]
  cases he : w.envelopes hash with
  | none => simp
  | some e =>
    obtain ⟨-, -, s, hs, hin⟩ := hw.stored hash e he
    by_cases hfuture : e.Expiry > now
    · -- every time indexing the hash is the envelope's own, in the future
      rw [if_neg, Option.filter_some, if_pos (decide_eq_true hfuture)]
      rintro ⟨y, hy, hyn, hyin⟩
      obtain ⟨e', he', hexp⟩ := hw.indexed y hy hash hyin
      rw [he, Option.some_inj] at he'
      subst he'
      exact hyn (hexp ▸ hfuture)
    · rw [if_pos ⟨(e.Expiry, s), hs, hfuture, hin⟩, Option.filter_some, if_neg (by simpa using hfuture)]

theorem Indexed.expire (hw : Indexed Hash w) : Indexed Hash (w.expire now) := by
  refine ⟨fun hash e he => ?_, fun x hx hash hmem => ?_⟩
  · -- an envelope left is one of the future, whose entry stays
    rw [Indexed.expire_envelopes Hash now hw hash, Option.filter_eq_some_iff] at he
    obtain ⟨he, hfuture⟩ := he
    obtain ⟨hhash, hadm, s, hs, hin⟩ := hw.stored hash e he
    exact ⟨hhash, hadm, s, foldl_expireEntry_keeps now _ w hs (of_decide_eq_true hfuture), hin⟩
  · -- an entry left with a hash in it was not cleared, so its time is in the future
    have hne : x.2 ≠ [] := List.ne_nil_of_mem hmem
    have hx' : x ∈ w.expirations := (mem_foldl_expireEntry now _ w hx).resolve_right hne
    obtain ⟨e, he, hexp⟩ := hw.indexed x hx' hash hmem
    have hfuture : x.1 > now := by
      by_contra hpast
      exact hne (foldl_expireEntry_cleared now _ w hx ⟨x, hx', hpast, rfl⟩)
    refine ⟨e, ?_, hexp⟩
    rw [Indexed.expire_envelopes Hash now hw hash, he, Option.filter_some, if_pos (decide_eq_true (hexp ▸ hfuture))]

end Expire

/-! ### Runs -/

/-- The calls on the pool. -/
inductive Op (H Msg : Type)
  | add (now : UInt32) (envelope : Envelope)
  | expire (now : UInt32)
  | addDecryptedMessage (hash : H) (msg : Msg)

/-- One call; an add that fails leaves the pool as it is. -/
def Pool.step (wh : Pool H Msg) : Op H Msg → Pool H Msg
  | .add now envelope =>
    match wh.add Hash lowPoW test now envelope with
    | .ok r => r.1
    | .error _ => wh
  | .expire now => wh.expire now
  | .addDecryptedMessage hash msg => wh.addDecryptedMessage hash msg

theorem Indexed.step {wh : Pool H Msg} (hw : Indexed Hash wh) (op : Op H Msg) :
    Indexed Hash (wh.step Hash lowPoW test op) := by
  cases op with
  | add now envelope =>
    rw [Pool.step]
    split
    · next r hr => exact Indexed.add Hash lowPoW test hw hr
    · exact hw
  | expire now => exact Indexed.expire Hash now hw
  | addDecryptedMessage hash msg => exact Indexed.addDecryptedMessage Hash hw hash msg

theorem Indexed.run {wh : Pool H Msg} (hw : Indexed Hash wh) (ops : List (Op H Msg)) :
    Indexed Hash (ops.foldl (Pool.step Hash lowPoW test) wh) := by
  induction ops generalizing wh with
  | nil => exact hw
  | cons op ops ih => exact ih (hw.step Hash lowPoW test op)

/-- Every pool a node reaches from NewWhisper holds each envelope under its
own hash and its own expiry, each after it passed the size checks of add,
and indexes no hash that is not an envelope of that expiry. -/
theorem run_Indexed (ops : List (Op H Msg)) :
    Indexed Hash (ops.foldl (Pool.step Hash lowPoW test) NewWhisper) :=
  (indexed_NewWhisper Hash).run Hash lowPoW test ops

/-- In every pool a node reaches from NewWhisper, expire drops exactly the
envelopes whose expiry has come. -/
theorem run_expire (ops : List (Op H Msg)) (now : UInt32) (hash : H) :
    ((ops.foldl (Pool.step Hash lowPoW test) NewWhisper).expire now).envelopes hash =
      ((ops.foldl (Pool.step Hash lowPoW test) NewWhisper).envelopes hash).filter fun e => e.Expiry > now :=
  Indexed.expire_envelopes Hash now ((indexed_NewWhisper Hash).run Hash lowPoW test ops) hash

end Pool

end GoEthereum.Whisper
