import GoEthereum.Data.Mutex

/-!
The asynchronous node-data processor of the downloader's queue
(`queue.deliverNodeData`). It injects sync results into the state scheduler
one at a time, taking `stateSchedLock` around each, and reports through a
callback.

The environment is given per result as an `ItemOutcome`: whether the
scheduler was gone when the lock was taken (the sync was aborted), what
`stateScheduler.Process` returned, and whether `batch.Write` failed. This
covers every pattern of failures, so the contents of the results play no
part. The model returns the goroutine's actions in program order;
`Mutex.run` replays the lock operations among them as `sync.Mutex` does.

The two error branches of the body unlock and call back but do not return,
so they fall through to the next Unlock: `failed_item_unlocks_twice`.
-/

namespace GoEthereum.Downloader

open Mutex (run Alternates)

def errNoFetchesPending : String := "no fetches pending"

/-- How the environment answers for one result. -/
structure ItemOutcome where
  /-- `q.stateScheduler == nil` once the lock is held. -/
  schedulerNil : Bool
  /-- The progress flag that Process returns. -/
  prog : Bool
  processErr : Option String
  writeErr : Option String
deriving DecidableEq, Repr

namespace ItemOutcome

/-- The scheduler was there and Process or Write failed. -/
def failed (o : ItemOutcome) : Bool :=
  !o.schedulerNil && (o.processErr.isSome || o.writeErr.isSome)

/-- The scheduler was there and both Process and Write succeeded. -/
def clean (o : ItemOutcome) : Bool :=
  !o.schedulerNil && o.processErr.isNone && o.writeErr.isNone

theorem clean_iff (o : ItemOutcome) :
    o.clean = true ↔ o.schedulerNil = false ∧ o.failed = false := by
  rcases o with ⟨_ | _, prog, _ | perr, _ | werr⟩ <;> simp [clean, failed]

end ItemOutcome

inductive NodeDataEvent
  | lock
  | unlock
  | process (i : Nat)
  | write (i : Nat)
  | callback (i : Nat) (progressed : Bool) (err : Option String)
  /-- The deferred `q.active.Signal()`. -/
  | signal
deriving DecidableEq, Repr

namespace NodeDataEvent

/-- The events that act on `stateSchedLock`. -/
def lockOp : NodeDataEvent → Option Mutex.Op
  | .lock => some .lock
  | .unlock => some .unlock
  | _ => none

def isCallback : NodeDataEvent → Bool
  | .callback .. => true
  | _ => false

end NodeDataEvent

open NodeDataEvent (lockOp isCallback)

/-- An error branch of the loop body: unlock and report, with no return. -/
def failurePath (i : Nat) (progressed : Bool) : Option String → List NodeDataEvent
  | some err => [.unlock, .callback i progressed (some err)]
  | none => []

/-- One pass of the loop body for result `i`: its events, and the new
progress flag, or `none` where the body returns. -/
def deliverItem (i : Nat) (o : ItemOutcome) (progressed : Bool) :
    List NodeDataEvent × Option Bool :=
  if o.schedulerNil then
    -- Syncing aborted since this async delivery started, bail out
    ([.lock, .unlock, .callback i progressed (some errNoFetchesPending)], none)
  else
    let processed := [.lock, .process i] ++ failurePath i progressed o.processErr
    let written := .write i :: failurePath i progressed o.writeErr
    (processed ++ written ++ [.unlock], some (progressed || o.prog))

/-- The loop from result `i` on, with the final callback for `n` results. -/
def deliverLoop {α : Type} (outcome : Nat → ItemOutcome) (n : Nat) :
    Nat → List α → Bool → List NodeDataEvent
  | _, [], progressed => [.callback n progressed none]
  | i, _ :: rest, progressed =>
    match deliverItem i (outcome i) progressed with
    | (events, none) => events
    | (events, some progressed) => events ++ deliverLoop outcome n (i + 1) rest progressed

def deliverNodeData {α : Type} (results : List α) (outcome : Nat → ItemOutcome) :
    List NodeDataEvent :=
  deliverLoop outcome results.length 0 results false ++ [.signal]

section Item

variable (i : Nat) (o : ItemOutcome) (p : Bool)

theorem deliverItem_of_nil (h : o.schedulerNil = true) :
    deliverItem i o p = ([.lock, .unlock, .callback i p (some errNoFetchesPending)], none) := by
  simp only [deliverItem, h, if_true]

theorem deliverItem_snd :
    (deliverItem i o p).2 = if o.schedulerNil then none else some (p || o.prog) := by
  unfold deliverItem
  split <;> rfl

/-- On the mutex, a pass of the body either alternates or unlocks a free
mutex, and it does the latter exactly when Process or Write failed. -/
theorem run_deliverItem :
    run lockOp false (deliverItem i o p).1 =
      if o.failed then .error .unlockOfUnlocked else .ok false := by
  rcases o with ⟨_ | _, prog, _ | perr, _ | werr⟩ <;> rfl

theorem callbacks_deliverItem_of_nil (h : o.schedulerNil = true) :
    (deliverItem i o p).1.countP isCallback = 1 := by
  rw [deliverItem_of_nil i o p h]
  rfl

theorem callbacks_deliverItem_of_clean (h : o.clean = true) :
    (deliverItem i o p).1.countP isCallback = 0 := by
  rcases o with ⟨_ | _, prog, _ | perr, _ | werr⟩ <;>
    simp_all [ItemOutcome.clean, deliverItem, failurePath, isCallback]

theorem callbacks_deliverItem_of_failed (h : o.failed = true) :
    0 < (deliverItem i o p).1.countP isCallback := by
  rcases o with ⟨_ | _, prog, _ | perr, _ | werr⟩ <;>
    simp_all [ItemOutcome.failed, deliverItem, failurePath, isCallback]

end Item

section Loop

variable {α : Type} (outcome : Nat → ItemOutcome) (n : Nat)

theorem deliverLoop_cons (i : Nat) (x : α) (rest : List α) (p : Bool) :
    deliverLoop outcome n i (x :: rest) p =
      (deliverItem i (outcome i) p).1 ++
        (deliverItem i (outcome i) p).2.elim [] (deliverLoop outcome n (i + 1) rest) := by
  unfold deliverLoop
  rcases deliverItem i (outcome i) p with ⟨events, _ | p'⟩
  · simp
  · rfl

/-- A result whose scheduler is gone ends the loop with its own events. -/
theorem deliverLoop_cons_of_nil (i : Nat) (x : α) (rest : List α) (p : Bool)
    (h : (outcome i).schedulerNil = true) :
    deliverLoop outcome n i (x :: rest) p = (deliverItem i (outcome i) p).1 := by
  rw [deliverLoop_cons, deliverItem_snd, if_pos h]
  simp

theorem deliverLoop_cons_of_present (i : Nat) (x : α) (rest : List α) (p : Bool)
    (h : (outcome i).schedulerNil = false) :
    deliverLoop outcome n i (x :: rest) p =
      (deliverItem i (outcome i) p).1 ++ deliverLoop outcome n (i + 1) rest (p || (outcome i).prog) := by
  rw [deliverLoop_cons, deliverItem_snd, if_neg (by simp [h])]
  rfl

/-- Every run of the loop calls back at least once: on the abort or at the end. -/
theorem callbacks_deliverLoop_pos (i : Nat) (rest : List α) (p : Bool) :
    0 < (deliverLoop outcome n i rest p).countP isCallback := by
  induction rest generalizing i p with
  | nil => exact Nat.one_pos
  | cons x rest ih =>
    cases h : (outcome i).schedulerNil
    · rw [deliverLoop_cons_of_present outcome n i x rest p h, List.countP_append]
      have := ih (i + 1) (p || (outcome i).prog)
      omega
    · rw [deliverLoop_cons_of_nil outcome n i x rest p h, callbacks_deliverItem_of_nil i _ p h]
      decide

/-- The correct paths: with no result failing in Process or Write, the loop
takes and releases the lock in strict alternation and calls back once. -/
theorem deliverLoop_of_no_failure (i : Nat) (rest : List α) (p : Bool)
    (hok : ∀ j < rest.length, (outcome (i + j)).failed = false) :
    run lockOp false (deliverLoop outcome n i rest p) = .ok false ∧
      (deliverLoop outcome n i rest p).countP isCallback = 1 := by
  induction rest generalizing i p with
  | nil => exact ⟨rfl, rfl⟩
  | cons x rest ih =>
    have hi : (outcome i).failed = false := hok 0 (by simp)
    have hrun : run lockOp false (deliverItem i (outcome i) p).1 = .ok false := by
      rw [run_deliverItem, hi]
      rfl
    cases h : (outcome i).schedulerNil
    · have hclean : (outcome i).clean = true := (ItemOutcome.clean_iff _).mpr ⟨h, hi⟩
      have hrest := ih (i + 1) (p || (outcome i).prog) fun j hj => by
        simpa [Nat.add_assoc, Nat.add_comm 1 j] using hok (j + 1) (by simp; omega)
      rw [deliverLoop_cons_of_present outcome n i x rest p h, Mutex.run_append_of_ok hrun,
        List.countP_append, callbacks_deliverItem_of_clean i _ p hclean]
      exact ⟨hrest.1, by omega⟩
    · rw [deliverLoop_cons_of_nil outcome n i x rest p h]
      exact ⟨hrun, callbacks_deliverItem_of_nil i _ p h⟩

/-- From the first result that fails in Process or Write on, the loop has
unlocked a free mutex, and it calls back again after the failure. -/
theorem deliverLoop_of_failure (i : Nat) (rest : List α) (p : Bool) (k : Nat) (hk : k < rest.length)
    (hclean : ∀ j < k, (outcome (i + j)).clean = true) (hfail : (outcome (i + k)).failed = true) :
    run lockOp false (deliverLoop outcome n i rest p) = .error .unlockOfUnlocked ∧
      2 ≤ (deliverLoop outcome n i rest p).countP isCallback := by
  induction rest generalizing i p k with
  | nil => simp at hk
  | cons x rest ih =>
    cases k with
    | zero =>
      -- the failing result: the scheduler was there, so the loop goes on after it
      rw [Nat.add_zero] at hfail
      have hpresent : (outcome i).schedulerNil = false := by
        simp only [ItemOutcome.failed, Bool.and_eq_true, Bool.not_eq_true'] at hfail
        exact hfail.1
      rw [deliverLoop_cons_of_present outcome n i x rest p hpresent, List.countP_append]
      refine ⟨Mutex.run_append_of_error ?_, ?_⟩
      · rw [run_deliverItem, if_pos hfail]
      · have h₁ := callbacks_deliverItem_of_failed i _ p hfail
        have h₂ := callbacks_deliverLoop_pos outcome n (i + 1) rest (p || (outcome i).prog)
        omega
    | succ k =>
      have hi : (outcome i).schedulerNil = false ∧ (outcome i).failed = false :=
        (ItemOutcome.clean_iff _).mp (hclean 0 (by omega))
      have hrun : run lockOp false (deliverItem i (outcome i) p).1 = .ok false := by
        rw [run_deliverItem, hi.2]
        rfl
      have hrest := ih (i + 1) (p || (outcome i).prog) k (by simpa using hk)
        (fun j hj => by simpa [Nat.add_assoc, Nat.add_comm 1 j] using hclean (j + 1) (by omega))
        (by simpa [Nat.add_assoc, Nat.add_comm 1 k] using hfail)
      rw [deliverLoop_cons_of_present outcome n i x rest p hi.1, Mutex.run_append_of_ok hrun,
        List.countP_append]
      exact ⟨hrest.1, by omega⟩

end Loop

section Run

variable {α : Type} (results : List α) (outcome : Nat → ItemOutcome)

/-- Where no result fails in Process or Write (every one succeeds, or the
sync is aborted), the lock alternates and the callback runs once. -/
theorem deliverNodeData_of_no_failure (hok : ∀ i < results.length, (outcome i).failed = false) :
    Alternates lockOp (deliverNodeData results outcome) ∧
      (deliverNodeData results outcome).countP isCallback = 1 := by
  have hloop := deliverLoop_of_no_failure outcome results.length 0 results false
    fun j hj => by simpa using hok j hj
  unfold deliverNodeData Alternates
  rw [Mutex.run_append_of_ok hloop.1, List.countP_append, hloop.2]
  exact ⟨rfl, rfl⟩

/-- The first result that fails in Process or Write makes the goroutine
unlock `stateSchedLock` a second time with no Lock in between, which Go's
`sync.Mutex` rejects as "sync: unlock of unlocked mutex"; and the code as
written calls back once for the failure and again later. -/
theorem failed_item_unlocks_twice (k : Nat) (hk : k < results.length)
    (hclean : ∀ i < k, (outcome i).clean = true) (hfail : (outcome k).failed = true) :
    run lockOp false (deliverNodeData results outcome) = .error .unlockOfUnlocked ∧
      2 ≤ (deliverNodeData results outcome).countP isCallback := by
  have hloop := deliverLoop_of_failure outcome results.length 0 results false k hk
    (fun j hj => by simpa using hclean j hj) (by simpa using hfail)
  unfold deliverNodeData
  rw [Mutex.run_append_of_error hloop.1, List.countP_append]
  exact ⟨rfl, by omega⟩

/-- Two results, the first rejected by the scheduler as not requested. -/
theorem failed_item_unlocks_twice_notRequested :
    run lockOp false (deliverNodeData [0, 1] fun i =>
        if i = 0 then ⟨false, false, some "not requested", none⟩ else ⟨false, true, none, none⟩) =
      .error .unlockOfUnlocked ∧
    2 ≤ (deliverNodeData [0, 1] fun i =>
        if i = 0 then ⟨false, false, some "not requested", none⟩
        else ⟨false, true, none, none⟩).countP isCallback :=
  failed_item_unlocks_twice [0, 1] _ 0 (by decide) (fun i hi => absurd hi (Nat.not_lt_zero i)) rfl

end Run

end GoEthereum.Downloader
