import Mathlib.Data.List.Basic

/-!
A mutex as one goroutine drives it. The events of a trace are of any type;
`op` picks out those that act on the mutex. Replaying them from the held
flag gives Go's `sync.Mutex` as seen by a single holder: a Lock of a held
mutex never returns (nobody else will release it), and an Unlock of a free
one is the runtime's fatal error "sync: unlock of unlocked mutex".
A trace whose Lock and Unlock strictly alternate, from a free mutex back to
a free one, replays to `.ok false`.
-/

namespace GoEthereum.Mutex

inductive Op
  | lock
  | unlock
deriving DecidableEq, Repr

inductive Fault
  | lockOfLocked
  | unlockOfUnlocked
deriving DecidableEq, Repr

variable {ε : Type} (op : ε → Option Op)

/-- Replays a trace from the held flag: the final flag, or the first fault. -/
def run : Bool → List ε → Except Fault Bool
  | held, [] => .ok held
  | held, e :: es =>
    match op e with
    | some .lock => if held then .error .lockOfLocked else run true es
    | some .unlock => if held then run false es else .error .unlockOfUnlocked
    | none => run held es

/-- Lock and Unlock strictly alternate, starting and ending with the mutex free. -/
def Alternates (es : List ε) : Prop :=
  run op false es = .ok false

instance instDecidableAlternates : DecidablePred (Alternates op) :=
  fun es => inferInstanceAs (Decidable (run op false es = .ok false))

variable {op} {e : ε} {es es' : List ε} {held : Bool}

/-- Replaying a concatenation replays the second part from where the first ends. -/
theorem run_append (held : Bool) (es es' : List ε) :
    run op held (es ++ es') = (run op held es).bind (fun h => run op h es') := by
  induction es generalizing held with
  | nil => rfl
  | cons e es ih =>
    simp only [List.cons_append, run]
    rcases op e with _ | _ | _ <;> cases held <;> simp [ih, Except.bind]

theorem run_append_of_ok (h : run op held es = .ok false) :
    run op held (es ++ es') = run op false es' := by
  rw [run_append, h]
  rfl

theorem run_append_of_error {f : Fault} (h : run op held es = .error f) :
    run op held (es ++ es') = .error f := by
  rw [run_append, h]
  rfl

end GoEthereum.Mutex
