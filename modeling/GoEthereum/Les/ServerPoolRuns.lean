import Mathlib
import GoEthereum.Les.ServerPool

/-!
The server pool over whole runs, from newServerPool through any events that
keep to the les handler's order of calls.

`Counted`: each counter is the number of entries of its kind that are dialed
or connected. A dial moves an entry from not connected to dialed and adds one
to its kind's counter, a timeout or a disconnect moves it back and takes one
off; no other change touches a state that the count reads. So the counters
are never negative, and, since a dial of checkDial stays below its target,
never above targetServerCount (`SelectedLe`).

`EntriesLive`: the map names only entries not removed, each under its own
id. So connect never reaches a removed entry, nor do the timeout and
enableRetry cases, which skip them; a removed entry that is dialed
(`DialedRemoved`) is never changed again, and its counter keeps it.
-/

namespace GoEthereum.Les

section Modify

variable {α : Type} (p : α → Bool) (f : α → α)

/-- Changing one element moves a count by what the new element adds and the
old one took away. -/
theorem countP_modify : ∀ {l : List α} {i : Nat} {a : α}, l[i]? = some a →
    (l.modify i f).countP p + (if p a then 1 else 0) = l.countP p + if p (f a) then 1 else 0
  | b :: l, 0, a, h => by
    obtain rfl : b = a := by simpa using h
    simp only [List.modify_zero_cons, List.countP_cons]
    omega
  | b :: l, i + 1, a, h => by
    have ih := countP_modify (l := l) (i := i) (by simpa using h)
    simp only [List.modify_succ_cons, List.countP_cons]
    omega

theorem countP_modify_of_eq {l : List α} {i : Nat} (hf : ∀ a, l[i]? = some a → p (f a) = p a) :
    (l.modify i f).countP p = l.countP p := by
  cases h : l[i]? with
  | none => rw [List.modify_eq_self (List.getElem?_eq_none_iff.mp h)]
  | some a =>
    have := countP_modify p f h
    rw [hf a h] at this
    omega

end Modify

namespace serverPool

/-! ### The counters -/

section Counted

variable {NodeID : Type} {pool : serverPool NodeID} {o : Nat} {e : poolEntry NodeID}

def selectedCount (pool : serverPool NodeID) (knownSelected : Bool) : Nat :=
  pool.objs.countP (·.selectedBy knownSelected)

/-- Each counter counts the entries of its kind that are dialed or connected. -/
def Counted (pool : serverPool NodeID) : Prop :=
  ∀ b, pool.selected b = pool.selectedCount b

theorem Counted.nonneg (hc : pool.Counted) (b : Bool) : 0 ≤ pool.selected b := by
  rw [hc b]
  omega

/-- A change of one entry that keeps what the counters read. -/
theorem Counted.modifyObj (hc : pool.Counted) (f : poolEntry NodeID → poolEntry NodeID)
    (hf : ∀ e, pool.objs[o]? = some e → ∀ b, (f e).selectedBy b = e.selectedBy b) : (pool.modifyObj o f).Counted := by
  intro b
  rw [selected_modifyObj, hc b, selectedCount, selectedCount, objs_modifyObj,
    countP_modify_of_eq _ f fun e he => hf e he b]

/-- A change of one entry, with its kind's counter moved by what the change
adds to the count. -/
theorem Counted.modifyObj_addSelected (hc : pool.Counted) (f : poolEntry NodeID → poolEntry NodeID)
    (he : pool.objs[o]? = some e) (k : Bool) (d : Int)
    (hd : ∀ b, ((if (f e).selectedBy b then 1 else 0 : Nat) : Int) = (if e.selectedBy b then 1 else 0 : Nat) + if k = b then d else 0) :
    ((pool.modifyObj o f).addSelected k d).Counted := by
  intro b
  have hcount := countP_modify (·.selectedBy b) f he
  have hb := hd b
  have hcb := hc b
  simp only [selected_addSelected, selected_modifyObj, selectedCount, objs_addSelected, objs_modifyObj] at hcb ⊢
  omega

theorem Counted.dial (hc : pool.Counted) (o : Nat) (k : Bool) : (pool.dial o k).Counted := by
  rcases dial_cases pool o k with h | ⟨e, he, hs, h⟩
  · rwa [h]
  · rw [h]
    refine hc.modifyObj_addSelected _ he k 1 fun b => ?_
    cases k <;> cases b <;> simp [poolEntry.selectedBy, hs]

theorem Counted.checkDial (hc : pool.Counted) (C : Chooser NodeID) : (pool.checkDial C).Counted :=
  checkDial_induct C (fun _ o _ _ h _ _ => h.dial o true) (fun _ o h _ _ => h.dial o false) hc

/-- A timeout or a disconnect of an entry dialed or connected. -/
theorem Counted.resetEntry (hc : pool.Counted) (he : pool.objs[o]? = some e) (hs : e.state ≠ .psNotConnected) :
    (pool.resetEntry o e.knownSelected).Counted := by
  have h := hc.modifyObj_addSelected (fun e => { e with state := .psNotConnected }) he e.knownSelected (-1) fun b => by
    cases hk : e.knownSelected <;> cases b <;> simp [poolEntry.selectedBy, hs, hk]
  exact h.modifyObj _ (by intros; rfl)

theorem Counted.timeout (hc : pool.Counted) (o : Nat) : (pool.timeout o).Counted := by
  rcases timeout_cases pool o with h | ⟨e, he, -, hs, h⟩ <;> rw [h]
  · exact hc
  · exact hc.resetEntry he (by simp [hs])

theorem Counted.enableRetry (hc : pool.Counted) (C : Chooser NodeID) (o : Nat) : (pool.enableRetry C o).Counted := by
  rcases enableRetry_cases C pool o with h | ⟨e, -, -, h⟩ <;> rw [h]
  · exact hc
  · exact (hc.modifyObj _ (by intros; rfl)).checkDial C

theorem Counted.connect (hc : pool.Counted) (id : NodeID) : (pool.connect id).2.Counted := by
  rcases connect_cases pool id with h | ⟨o, e, -, he, hs, h⟩ <;> rw [h]
  · exact hc
  · exact hc.modifyObj _ fun e' he' b => by
      obtain rfl : e' = e := Option.some.inj (he'.symm.trans he)
      simp only [poolEntry.selectedBy, hs]
      rfl

variable [DecidableEq NodeID]

theorem Counted.removeEntry (hc : pool.Counted) (o : Nat) : (pool.removeEntry o).Counted := by
  cases he : pool.objs[o]? with
  | none => rwa [removeEntry_of_none he]
  | some e =>
    rw [removeEntry_eq he]
    exact hc.modifyObj _ (by intros; rfl)

theorem Counted.removeEvicted (hc : pool.Counted) : ∀ r, (pool.removeEvicted r).Counted
  | none => hc
  | some o => hc.removeEntry o

theorem Counted.knownQueueSetLatest (hc : pool.Counted) (o : Nat) : (pool.knownQueueSetLatest o).Counted := by
  apply Counted.removeEvicted
  exact hc

theorem Counted.newQueueSetLatest (hc : pool.Counted) (o : Nat) : (pool.newQueueSetLatest o).Counted := by
  apply Counted.removeEvicted
  exact hc

theorem Counted.addEntry (hc : pool.Counted) (id : NodeID) (known : Bool) : (pool.addEntry id known).Counted := by
  intro b
  rw [selected_addEntry, hc b, selectedCount, selectedCount, objs_addEntry, List.countP_append]
  simp [poolEntry.selectedBy]

theorem Counted.registered (hc : pool.Counted) (he : pool.objs[o]? = some e) (hs : e.state = .psConnected) :
    (pool.registered o).Counted := by
  have h₁ : (pool.modifyObj o fun e => { e with state := .psRegistered }).Counted :=
    hc.modifyObj _ fun e' he' b => by
      obtain rfl : e' = e := Option.some.inj (he'.symm.trans he)
      simp only [poolEntry.selectedBy, hs]
      rfl
  simp only [registered_eq he]
  refine Counted.modifyObj ?_ _ (by intros; rfl)
  refine Counted.knownQueueSetLatest ?_ _
  split
  · exact h₁.modifyObj _ (by intros; rfl)
  · exact h₁

theorem Counted.discovered (hc : pool.Counted) (C : Chooser NodeID) (id : NodeID) : (pool.discovered C id).Counted := by
  unfold serverPool.discovered
  split
  · apply Counted.checkDial
    split
    · exact hc.newQueueSetLatest _
    · exact hc
  · exact ((hc.addEntry id false).newQueueSetLatest _).checkDial C

theorem Counted.step {C : Chooser NodeID} {pool' : serverPool NodeID} {ev : poolEvent NodeID} (hc : pool.Counted)
    (h : step C pool ev = some pool') : pool'.Counted := by
  rcases step_cases h with ⟨id, rfl⟩ | ⟨o, rfl⟩ | ⟨o, rfl⟩ | rfl | ⟨id, rfl⟩ | ⟨o, e, he, hs, rfl⟩ |
    ⟨o, e, he, hs, -, rfl⟩
  · exact hc.discovered C id
  · exact hc.timeout o
  · exact hc.enableRetry C o
  · exact hc
  · exact hc.connect id
  · exact hc.registered he hs
  · rw [disconnect_eq he]
    exact hc.resetEntry he hs

theorem Counted.loadNodes (hc : pool.Counted) (loaded : List NodeID) : (pool.loadNodes loaded).Counted :=
  loadNodes_induct (fun _ _ h => (h.addEntry _ true).knownQueueSetLatest _) loaded _ hc

theorem counted_newServerPool (C : Chooser NodeID) (loaded : List NodeID) : (newServerPool C loaded).Counted := by
  unfold newServerPool
  exact (Counted.loadNodes (fun b => by cases b <;> rfl) loaded).checkDial C

end Counted

/-! ### The bound on the counters -/

section Bound

variable {NodeID : Type} {pool : serverPool NodeID}

/-- Neither counter is above targetServerCount. -/
def SelectedLe (pool : serverPool NodeID) : Prop :=
  ∀ b, pool.selected b ≤ targetServerCount

theorem selected_dial_le (pool : serverPool NodeID) (o : Nat) (k b : Bool) :
    (pool.dial o k).selected b ≤ pool.selected b + if k = b then 1 else 0 := by
  rcases dial_cases pool o k with h | ⟨e, -, -, h⟩ <;> rw [h]
  · split <;> omega
  · simp

/-- A dial of checkDial stays below its target, which is at most
targetServerCount; a new entry is dialed only while the two counters, neither
of them negative, add up to less than that. -/
theorem SelectedLe.checkDial (hc : pool.Counted) (hl : pool.SelectedLe) (C : Chooser NodeID) :
    (pool.checkDial C).SelectedLe := by
  refine (@checkDial_induct _ C (fun p => p.Counted ∧ p.SelectedLe) ?_ ?_ pool ⟨hc, hl⟩).2
  · intro p o target ht ⟨hc, hl⟩ hlt _
    refine ⟨hc.dial o true, fun b => ?_⟩
    have hd := selected_dial_le p o true b
    have hb := hl b
    cases b <;> simp at hd hb ⊢ <;> omega
  · intro p o ⟨hc, hl⟩ hlt _
    refine ⟨hc.dial o false, fun b => ?_⟩
    have hd := selected_dial_le p o false b
    have hk := hc.nonneg true
    have hb := hl b
    cases b <;> simp at hd hk hb ⊢ <;> omega

theorem SelectedLe.resetEntry (hl : pool.SelectedLe) (o : Nat) (k : Bool) : (pool.resetEntry o k).SelectedLe := by
  intro b
  have := hl b
  rw [selected_resetEntry]
  split <;> omega

variable [DecidableEq NodeID]

theorem SelectedLe.step {C : Chooser NodeID} {pool' : serverPool NodeID} {ev : poolEvent NodeID}
    (hc : pool.Counted) (hl : pool.SelectedLe) (h : step C pool ev = some pool') : pool'.SelectedLe := by
  rcases step_cases h with ⟨id, rfl⟩ | ⟨o, rfl⟩ | ⟨o, rfl⟩ | rfl | ⟨id, rfl⟩ | ⟨o, e, he, hs, rfl⟩ |
    ⟨o, e, he, hs, -, rfl⟩
  · unfold serverPool.discovered
    split
    · split
      · exact SelectedLe.checkDial (hc.newQueueSetLatest _) (fun b => by simpa using hl b) C
      · exact SelectedLe.checkDial hc hl C
    · exact SelectedLe.checkDial ((hc.addEntry id false).newQueueSetLatest _) (fun b => by simpa using hl b) C
  · rcases timeout_cases pool o with h | ⟨e, -, -, -, h⟩ <;> rw [h]
    · exact hl
    · exact hl.resetEntry o _
  · rcases enableRetry_cases C pool o with h | ⟨e, -, -, h⟩ <;> rw [h]
    · exact hl
    · exact SelectedLe.checkDial (hc.modifyObj _ (by intros; rfl)) hl C
  · exact hl
  · intro b
    simpa using hl b
  · intro b
    simpa using hl b
  · rw [disconnect_eq he]
    exact hl.resetEntry o _

end Bound

/-! ### Removed entries -/

section Live

variable {NodeID : Type} {pool : serverPool NodeID} {o : Nat} {e : poolEntry NodeID}

/-- The map names only entries not removed, each under its own id. -/
def EntriesLive (pool : serverPool NodeID) : Prop :=
  ∀ id o, pool.entries id = some o → ∃ e, pool.objs[o]? = some e ∧ e.id = id ∧ e.removed = false

theorem EntriesLive.modifyObj (hl : pool.EntriesLive) (f : poolEntry NodeID → poolEntry NodeID)
    (hf : ∀ e, (f e).id = e.id ∧ (f e).removed = e.removed) : (pool.modifyObj o f).EntriesLive := by
  intro id o' h
  obtain ⟨e, he, hid, hr⟩ := hl id o' h
  rw [getElem?_modifyObj]
  split
  · exact ⟨f e, by rw [he]; rfl, (hf e).1.trans hid, (hf e).2.trans hr⟩
  · exact ⟨e, he, hid, hr⟩

theorem EntriesLive.addSelected (hl : pool.EntriesLive) (k : Bool) (d : Int) : (pool.addSelected k d).EntriesLive := by
  cases k <;> exact hl

theorem EntriesLive.dial (hl : pool.EntriesLive) (o : Nat) (k : Bool) : (pool.dial o k).EntriesLive := by
  rcases dial_cases pool o k with h | ⟨e, -, -, h⟩ <;> rw [h]
  · exact hl
  · exact (hl.modifyObj _ (by intros; exact ⟨rfl, rfl⟩)).addSelected k 1

theorem EntriesLive.checkDial (hl : pool.EntriesLive) (C : Chooser NodeID) : (pool.checkDial C).EntriesLive :=
  checkDial_induct C (fun _ o _ _ h _ _ => h.dial o true) (fun _ o h _ _ => h.dial o false) hl

theorem EntriesLive.resetEntry (hl : pool.EntriesLive) (o : Nat) (k : Bool) : (pool.resetEntry o k).EntriesLive := by
  unfold serverPool.resetEntry setRetryDial
  exact ((hl.modifyObj _ (by intros; exact ⟨rfl, rfl⟩)).addSelected k (-1)).modifyObj _ (by intros; exact ⟨rfl, rfl⟩)

/-- The entry `o` is removed from the pool while dialed, by a choice of the
kind `k`. -/
def DialedRemoved (pool : serverPool NodeID) (o : Nat) (k : Bool) : Prop :=
  ∃ e, pool.objs[o]? = some e ∧ e.removed = true ∧ e.state = .psDialed ∧ e.knownSelected = k

variable {k : Bool}

theorem DialedRemoved.ne_of_removed (h : pool.DialedRemoved o k) {o' : Nat} {e' : poolEntry NodeID}
    (he' : pool.objs[o']? = some e') (hr : e'.removed = false) : o' ≠ o := by
  rintro rfl
  obtain ⟨e, he, hr', -⟩ := h
  obtain rfl : e' = e := Option.some.inj (he'.symm.trans he)
  simp [hr] at hr'

theorem DialedRemoved.ne_of_state (h : pool.DialedRemoved o k) {o' : Nat} {e' : poolEntry NodeID}
    (he' : pool.objs[o']? = some e') (hs : e'.state ≠ .psDialed) : o' ≠ o := by
  rintro rfl
  obtain ⟨e, he, -, hs', -⟩ := h
  obtain rfl : e' = e := Option.some.inj (he'.symm.trans he)
  exact hs hs'

theorem DialedRemoved.modifyObj_of_ne (h : pool.DialedRemoved o k) (f : poolEntry NodeID → poolEntry NodeID)
    {o' : Nat} (hne : o' ≠ o) : (pool.modifyObj o' f).DialedRemoved o k := by
  obtain ⟨e, he, hr, hs, hk⟩ := h
  exact ⟨e, by rw [getElem?_modifyObj_of_ne f hne]; exact he, hr, hs, hk⟩

/-- A change that keeps a removed entry removed, in its state and of its kind. -/
theorem DialedRemoved.modifyObj (h : pool.DialedRemoved o k) (f : poolEntry NodeID → poolEntry NodeID)
    (hf : ∀ e, e.removed = true → (f e).removed = true ∧ (f e).state = e.state ∧ (f e).knownSelected = e.knownSelected)
    (o' : Nat) : (pool.modifyObj o' f).DialedRemoved o k := by
  by_cases hne : o' = o
  · subst hne
    obtain ⟨e, he, hr, hs, hk⟩ := h
    obtain ⟨hr', hs', hk'⟩ := hf e hr
    exact ⟨f e, by rw [getElem?_modifyObj, if_pos rfl, he]; rfl, hr', hs'.trans hs, hk'.trans hk⟩
  · exact h.modifyObj_of_ne f hne

theorem DialedRemoved.addSelected (h : pool.DialedRemoved o k) (k' : Bool) (d : Int) :
    (pool.addSelected k' d).DialedRemoved o k := by
  cases k' <;> exact h

/-- dial changes only an entry that is not connected. -/
theorem DialedRemoved.dial (h : pool.DialedRemoved o k) (o' : Nat) (k' : Bool) : (pool.dial o' k').DialedRemoved o k := by
  rcases dial_cases pool o' k' with hd | ⟨e', he', hs, hd⟩ <;> rw [hd]
  · exact h
  · exact (h.modifyObj_of_ne _ (h.ne_of_state he' (by simp [hs]))).addSelected k' 1

theorem DialedRemoved.checkDial (h : pool.DialedRemoved o k) (C : Chooser NodeID) : (pool.checkDial C).DialedRemoved o k :=
  @checkDial_induct _ C (fun p => p.DialedRemoved o k) (fun _ o' _ _ h _ _ => h.dial o' true)
    (fun _ o' h _ _ => h.dial o' false) pool h

theorem DialedRemoved.resetEntry (h : pool.DialedRemoved o k) {o' : Nat} (hne : o' ≠ o) (k' : Bool) :
    (pool.resetEntry o' k').DialedRemoved o k :=
  ((h.modifyObj_of_ne _ hne).addSelected k' (-1)).modifyObj_of_ne _ hne

variable [DecidableEq NodeID]

/-- removeEntry takes the entry's own id out of the map, the only id that
names it. -/
theorem EntriesLive.removeEntry (hl : pool.EntriesLive) (o : Nat) : (pool.removeEntry o).EntriesLive := by
  cases he : pool.objs[o]? with
  | none => rwa [removeEntry_of_none he]
  | some e =>
    rw [removeEntry_eq he]
    intro id o' h
    have hid : id ≠ e.id := by
      rintro rfl
      simp at h
    obtain ⟨e', he', hid', hr⟩ := hl id o' (by simpa [Function.update_of_ne hid] using h)
    have ho : o ≠ o' := by
      rintro rfl
      obtain rfl : e' = e := Option.some.inj (he'.symm.trans he)
      exact hid hid'.symm
    exact ⟨e', by simpa [List.getElem?_modify, ho] using he', hid', hr⟩

theorem EntriesLive.removeEvicted (hl : pool.EntriesLive) : ∀ r, (pool.removeEvicted r).EntriesLive
  | none => hl
  | some o => hl.removeEntry o

theorem EntriesLive.knownQueueSetLatest (hl : pool.EntriesLive) (o : Nat) : (pool.knownQueueSetLatest o).EntriesLive := by
  apply EntriesLive.removeEvicted
  exact hl

theorem EntriesLive.newQueueSetLatest (hl : pool.EntriesLive) (o : Nat) : (pool.newQueueSetLatest o).EntriesLive := by
  apply EntriesLive.removeEvicted
  exact hl

/-- The new entry goes in at a place past every entry the map names. -/
theorem EntriesLive.addEntry (hl : pool.EntriesLive) (id : NodeID) (known : Bool) :
    (pool.addEntry id known).EntriesLive := by
  intro id' o h
  rw [entries_addEntry] at h
  rw [objs_addEntry]
  by_cases hid : id' = id
  · subst hid
    obtain rfl : pool.objs.length = o := by simpa using h
    exact ⟨⟨id', known, false, .psNotConnected, false, false, shortRetryCnt⟩, by simp, rfl, rfl⟩
  · rw [Function.update_of_ne hid] at h
    obtain ⟨e, he, hid', hr⟩ := hl id' o h
    exact ⟨e, by rw [List.getElem?_append_left (List.getElem?_eq_some_iff.mp he).1]; exact he, hid', hr⟩

theorem EntriesLive.registered (hl : pool.EntriesLive) (o : Nat) : (pool.registered o).EntriesLive := by
  unfold serverPool.registered
  split
  · exact hl
  · refine EntriesLive.modifyObj ?_ _ (by intros; exact ⟨rfl, rfl⟩)
    refine EntriesLive.knownQueueSetLatest ?_ _
    have h₁ := hl.modifyObj (o := o) (fun e => { e with state := .psRegistered }) (by intros; exact ⟨rfl, rfl⟩)
    split
    · exact h₁.modifyObj _ (by intros; exact ⟨rfl, rfl⟩)
    · exact h₁

theorem EntriesLive.discovered (hl : pool.EntriesLive) (C : Chooser NodeID) (id : NodeID) :
    (pool.discovered C id).EntriesLive := by
  unfold serverPool.discovered
  split
  · apply EntriesLive.checkDial
    split
    · exact hl.newQueueSetLatest _
    · exact hl
  · exact ((hl.addEntry id false).newQueueSetLatest _).checkDial C

theorem EntriesLive.step {C : Chooser NodeID} {pool' : serverPool NodeID} {ev : poolEvent NodeID}
    (hl : pool.EntriesLive) (h : step C pool ev = some pool') : pool'.EntriesLive := by
  rcases step_cases h with ⟨id, rfl⟩ | ⟨o, rfl⟩ | ⟨o, rfl⟩ | rfl | ⟨id, rfl⟩ | ⟨o, e, -, -, rfl⟩ |
    ⟨o, e, he, -, -, rfl⟩
  · exact hl.discovered C id
  · rcases timeout_cases pool o with h | ⟨e, -, -, -, h⟩ <;> rw [h]
    · exact hl
    · exact hl.resetEntry o _
  · rcases enableRetry_cases C pool o with h | ⟨e, -, -, h⟩ <;> rw [h]
    · exact hl
    · exact (hl.modifyObj _ (by intros; exact ⟨rfl, rfl⟩)).checkDial C
  · exact hl
  · rcases connect_cases pool id with h | ⟨o, e, -, -, -, h⟩ <;> rw [h]
    · exact hl
    · exact hl.modifyObj _ (by intros; exact ⟨rfl, rfl⟩)
  · exact hl.registered o
  · rw [disconnect_eq he]
    exact hl.resetEntry o _

theorem DialedRemoved.removeEntry (h : pool.DialedRemoved o k) (o' : Nat) : (pool.removeEntry o').DialedRemoved o k := by
  cases he : pool.objs[o']? with
  | none => rwa [removeEntry_of_none he]
  | some e =>
    rw [removeEntry_eq he]
    exact h.modifyObj _ (by intros; exact ⟨rfl, rfl, rfl⟩) o'

theorem DialedRemoved.removeEvicted (h : pool.DialedRemoved o k) : ∀ r, (pool.removeEvicted r).DialedRemoved o k
  | none => h
  | some o' => h.removeEntry o'

theorem DialedRemoved.knownQueueSetLatest (h : pool.DialedRemoved o k) (o' : Nat) :
    (pool.knownQueueSetLatest o').DialedRemoved o k := by
  apply DialedRemoved.removeEvicted
  exact h

theorem DialedRemoved.newQueueSetLatest (h : pool.DialedRemoved o k) (o' : Nat) :
    (pool.newQueueSetLatest o').DialedRemoved o k := by
  apply DialedRemoved.removeEvicted
  exact h

theorem DialedRemoved.addEntry (h : pool.DialedRemoved o k) (id : NodeID) (known : Bool) :
    (pool.addEntry id known).DialedRemoved o k := by
  obtain ⟨e, he, hr, hs, hk⟩ := h
  exact ⟨e, by rw [objs_addEntry, List.getElem?_append_left (List.getElem?_eq_some_iff.mp he).1]; exact he, hr, hs, hk⟩

theorem DialedRemoved.registered (h : pool.DialedRemoved o k) {o' : Nat} (hne : o' ≠ o) :
    (pool.registered o').DialedRemoved o k := by
  unfold serverPool.registered
  split
  · exact h
  · refine DialedRemoved.modifyObj_of_ne ?_ _ hne
    refine DialedRemoved.knownQueueSetLatest ?_ _
    have h₁ := h.modifyObj_of_ne (fun e => { e with state := .psRegistered }) hne
    split
    · exact h₁.modifyObj_of_ne _ hne
    · exact h₁

theorem DialedRemoved.discovered (h : pool.DialedRemoved o k) (C : Chooser NodeID) (id : NodeID) :
    (pool.discovered C id).DialedRemoved o k := by
  unfold serverPool.discovered
  split
  · apply DialedRemoved.checkDial
    split
    · exact h.newQueueSetLatest _
    · exact h
  · exact ((h.addEntry id false).newQueueSetLatest _).checkDial C

/-- No event changes a removed entry that is dialed: the timeout and
enableRetry cases skip it, connect cannot find it in the map, and the les
handler holds no connection of it to register or end. -/
theorem DialedRemoved.step {C : Chooser NodeID} {pool' : serverPool NodeID} {ev : poolEvent NodeID}
    (hl : pool.EntriesLive) (h : pool.DialedRemoved o k) (hs : step C pool ev = some pool') : pool'.DialedRemoved o k := by
  rcases step_cases hs with ⟨id, rfl⟩ | ⟨o', rfl⟩ | ⟨o', rfl⟩ | rfl | ⟨id, rfl⟩ | ⟨o', e', he', hs', rfl⟩ |
    ⟨o', e', he', -, hs', rfl⟩
  · exact h.discovered C id
  · rcases timeout_cases pool o' with ht | ⟨e', he', hr, -, ht⟩ <;> rw [ht]
    · exact h
    · exact h.resetEntry (h.ne_of_removed he' hr) _
  · rcases enableRetry_cases C pool o' with ht | ⟨e', he', hr, ht⟩ <;> rw [ht]
    · exact h
    · exact (h.modifyObj_of_ne _ (h.ne_of_removed he' hr)).checkDial C
  · exact h
  · rcases connect_cases pool id with hc | ⟨o', e', hid, he', -, hc⟩ <;> rw [hc]
    · exact h
    · obtain ⟨e'', he'', -, hr⟩ := hl id o' hid
      exact h.modifyObj_of_ne _ (h.ne_of_removed he'' hr)
  · exact h.registered (h.ne_of_state he' (by simp [hs']))
  · rw [disconnect_eq he']
    exact h.resetEntry (h.ne_of_state he' hs') _


end Live

/-! ### Runs -/

section Runs

variable {NodeID : Type} [DecidableEq NodeID]

theorem entriesLive_newServerPool (C : Chooser NodeID) (loaded : List NodeID) : (newServerPool C loaded).EntriesLive := by
  apply EntriesLive.checkDial
  exact loadNodes_induct (fun _ _ h => (h.addEntry _ true).knownQueueSetLatest _) loaded _ fun _ _ h => by simp at h

theorem counted_of_run (C : Chooser NodeID) (loaded : List NodeID) (evs : List (Chooser NodeID × poolEvent NodeID))
    {pool : serverPool NodeID} (hrun : run (newServerPool C loaded) evs = some pool) : pool.Counted :=
  run_induct (fun hc h => hc.step h) evs (counted_newServerPool C loaded) hrun

theorem selectedLe_of_run (C : Chooser NodeID) (loaded : List NodeID) (evs : List (Chooser NodeID × poolEvent NodeID))
    {pool : serverPool NodeID} (hrun : run (newServerPool C loaded) evs = some pool) : pool.SelectedLe := by
  have hinit : (newServerPool C loaded).SelectedLe := by
    unfold newServerPool
    refine SelectedLe.checkDial (Counted.loadNodes (fun b => by cases b <;> rfl) loaded) ?_ C
    exact loadNodes_induct (fun _ _ h b => by simpa using h b) loaded _ fun b => by cases b <;> simp [targetServerCount]
  have := @run_induct _ _ (fun p => p.Counted ∧ p.SelectedLe) (fun h hs => ⟨h.1.step hs, SelectedLe.step h.1 h.2 hs⟩)
    evs _ _ ⟨counted_newServerPool C loaded, hinit⟩ hrun
  exact this.2

end Runs

/-! ### The pool over runs -/

section Results

variable {NodeID : Type}

/-- The chooser that takes the first entry of positive weight, by the order the
pool made them. -/
def firstChooser : Chooser NodeID where
  chooseKnown pool := pool.objs.findIdx? (·.knownWeighty)
  chooseNew pool := pool.objs.findIdx? (·.discoveredWeighty)
  chooseKnown_weighty pool o h := by
    obtain ⟨hlt, hw, -⟩ := List.findIdx?_eq_some_iff_getElem.mp h
    exact ⟨_, List.getElem?_eq_getElem hlt, hw⟩
  chooseNew_weighty pool o h := by
    obtain ⟨hlt, hw, -⟩ := List.findIdx?_eq_some_iff_getElem.mp h
    exact ⟨_, List.getElem?_eq_getElem hlt, hw⟩

/-- checkDial's loops end by their own tests: from counters that are not
negative, as in every pool a run reaches, a loop given more turns than its
target returns what it returns with its target. -/
theorem checkDial_loops_end (C : Chooser NodeID) (pool : serverPool NodeID) (hk : 0 ≤ pool.knownSelected)
    (hn : 0 ≤ pool.newSelected) (extra : Nat) :
    (∀ target : Int, dialKnown C target (target.toNat + extra) pool = dialKnown C target target.toNat pool) ∧
      dialNew C (targetServerCount.toNat + extra) pool = dialNew C targetServerCount.toNat pool := by
  constructor
  · intro target
    induction extra with
    | zero => rfl
    | succ extra ih => rw [← Nat.add_assoc, dialKnown_succ target _ pool (by omega), ih]
  · induction extra with
    | zero => rfl
    | succ extra ih => rw [← Nat.add_assoc, dialNew_succ _ pool (by omega), ih]

/-- Three known entries and two new ones, none of them connected. -/
def turnsPool : serverPool Nat :=
  ⟨[⟨0, true, false, .psNotConnected, false, false, 5⟩, ⟨1, true, false, .psNotConnected, false, false, 5⟩,
    ⟨2, true, false, .psNotConnected, false, false, 5⟩, ⟨3, false, false, .psNotConnected, false, false, 5⟩,
    ⟨4, false, false, .psNotConnected, false, false, 5⟩], fun _ => none, [], [], 0, 0, false⟩

/-- The known loop dials the three known entries, a turn each, and the new
loop then dials the two new ones; two more turns change neither. -/
theorem checkDial_loops_end_turns :
    dialKnown firstChooser targetKnownSelect (targetKnownSelect.toNat + 2) turnsPool =
        dialKnown firstChooser targetKnownSelect targetKnownSelect.toNat turnsPool ∧
      (dialKnown firstChooser targetKnownSelect targetKnownSelect.toNat turnsPool).2.knownSelected = 3 ∧
      dialNew firstChooser (targetServerCount.toNat + 2)
          (dialKnown firstChooser targetKnownSelect targetKnownSelect.toNat turnsPool).2 =
        dialNew firstChooser targetServerCount.toNat
          (dialKnown firstChooser targetKnownSelect targetKnownSelect.toNat turnsPool).2 ∧
      (dialNew firstChooser targetServerCount.toNat
          (dialKnown firstChooser targetKnownSelect targetKnownSelect.toNat turnsPool).2).newSelected = 2 := by
  have hknown := (checkDial_loops_end firstChooser turnsPool (by decide) (by decide) 2).1 targetKnownSelect
  have hnew := (checkDial_loops_end firstChooser
    (dialKnown firstChooser targetKnownSelect targetKnownSelect.toNat turnsPool).2 (by decide) (by decide) 2).2
  exact ⟨hknown, by decide, hnew, by decide⟩

variable [DecidableEq NodeID]

theorem run_counters (C : Chooser NodeID) (loaded : List NodeID) (evs : List (Chooser NodeID × poolEvent NodeID))
    {pool : serverPool NodeID} (hrun : run (newServerPool C loaded) evs = some pool) :
    pool.knownSelected = pool.objs.countP (·.selectedBy true) ∧
      pool.newSelected = pool.objs.countP (·.selectedBy false) :=
  have hc := counted_of_run C loaded evs hrun
  ⟨hc true, hc false⟩

/-- Two known nodes are dialed at the start; a third, discovered, is dialed as
new; the first is connected, and the second times out and may be dialed
again. -/
theorem run_counters_two_known :
    ∃ pool, run (newServerPool firstChooser [0, 1])
        [(firstChooser, .discovered 2), (firstChooser, .connect 0), (firstChooser, .timeout 1),
          (firstChooser, .enableRetry 1)] = some pool ∧
      pool.knownSelected = pool.objs.countP (·.selectedBy true) ∧
      pool.newSelected = pool.objs.countP (·.selectedBy false) :=
  ⟨_, rfl, run_counters firstChooser [0, 1] [(firstChooser, .discovered 2),
    (firstChooser, .connect 0), (firstChooser, .timeout 1), (firstChooser, .enableRetry 1)] rfl⟩

theorem run_selected_le (C : Chooser NodeID) (loaded : List NodeID) (evs : List (Chooser NodeID × poolEvent NodeID))
    {pool : serverPool NodeID} (hrun : run (newServerPool C loaded) evs = some pool) :
    0 ≤ pool.knownSelected ∧ pool.knownSelected ≤ targetServerCount ∧
      0 ≤ pool.newSelected ∧ pool.newSelected ≤ targetServerCount := by
  have hc := counted_of_run C loaded evs hrun
  have hl := selectedLe_of_run C loaded evs hrun
  exact ⟨hc.nonneg true, hl true, hc.nonneg false, hl false⟩

theorem run_selected_le_two_known :
    ∃ pool, run (newServerPool firstChooser [0, 1])
        [(firstChooser, .discovered 2), (firstChooser, .fastDiscoverEnds), (firstChooser, .timeout 0)] =
        some pool ∧
      0 ≤ pool.knownSelected ∧ pool.knownSelected ≤ targetServerCount ∧
      0 ≤ pool.newSelected ∧ pool.newSelected ≤ targetServerCount :=
  ⟨_, rfl, run_selected_le firstChooser [0, 1]
    [(firstChooser, .discovered 2), (firstChooser, .fastDiscoverEnds), (firstChooser, .timeout 0)] rfl⟩

/-- Every pool a run reaches keeps its map to live entries and its counters
exact, which is what `removed_dialed_stays` asks of the pool it starts from. -/
theorem entriesLive_counted_of_run (C : Chooser NodeID) (loaded : List NodeID) (evs : List (Chooser NodeID × poolEvent NodeID))
    {pool : serverPool NodeID} (hrun : run (newServerPool C loaded) evs = some pool) : pool.EntriesLive ∧ pool.Counted :=
  ⟨run_induct (fun hl h => hl.step h) evs (entriesLive_newServerPool C loaded) hrun, counted_of_run C loaded evs hrun⟩

theorem removed_dialed_stays {pool pool' : serverPool NodeID} (hl : pool.EntriesLive)
    (hc : pool.Counted) {o : Nat} {e : poolEntry NodeID} (he : pool.objs[o]? = some e) (hr : e.removed = true)
    (hs : e.state = .psDialed) (evs : List (Chooser NodeID × poolEvent NodeID)) (hrun : run pool evs = some pool') :
    ∃ e', pool'.objs[o]? = some e' ∧ e'.removed = true ∧ e'.state = .psDialed ∧
      e'.knownSelected = e.knownSelected ∧ 0 < pool'.selected e.knownSelected := by
  have hinv := @run_induct _ _ (fun p => p.EntriesLive ∧ p.Counted ∧ p.DialedRemoved o e.knownSelected)
    (fun h hs => ⟨h.1.step hs, h.2.1.step hs, h.2.2.step h.1 hs⟩) evs _ _ ⟨hl, hc, e, he, hr, hs, rfl⟩ hrun
  obtain ⟨-, hc', e', he', hr', hs', hk'⟩ := hinv
  -- the entry is still dialed, so the count of its kind has it
  have hpos : 0 < pool'.selectedCount e.knownSelected :=
    List.countP_pos_iff.mpr ⟨e', List.mem_of_getElem? he', by simp [poolEntry.selectedBy, hs', hk']⟩
  exact ⟨e', he', hr', hs', hk', by rw [hc' e.knownSelected]; omega⟩

/-- An entry removed while a dial of it waits, in a pool of that one entry. -/
theorem removed_dialed_stays_timeout :
    let pool : serverPool Nat := ⟨[⟨0, false, false, .psDialed, true, false, 5⟩], fun _ => none, [], [], 0, 1, true⟩
    pool.EntriesLive ∧ pool.Counted ∧
      ∃ e', (run pool [(firstChooser, .timeout 0), (firstChooser, .connect 0),
          (firstChooser, .enableRetry 0), (firstChooser, .discovered 0)]).bind (·.objs[0]?) = some e' ∧
        e'.removed = true ∧ e'.state = .psDialed ∧ e'.knownSelected = false := by
  intro pool
  have hl : pool.EntriesLive := fun _ _ h => by simp [pool] at h
  have hc : pool.Counted := fun b => by cases b <;> rfl
  obtain ⟨e', he', hr', hs', hk', -⟩ := removed_dialed_stays hl hc (o := 0) rfl rfl rfl
    [(firstChooser, .timeout 0), (firstChooser, .connect 0), (firstChooser, .enableRetry 0),
      (firstChooser, .discovered 0)] rfl
  exact ⟨hl, hc, e', by rw [show run pool _ = _ from rfl]; exact he', hr', hs', hk'⟩

end Results

end serverPool

end GoEthereum.Les
