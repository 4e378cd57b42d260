import GoEthereum.Trie.Iterator

/-!
What the node iterator visits, and that its stack machine visits it. A
visit is the node the iterator stands at, with the key nibbles that makeKey
reads off the stack then. `Walk t pre n c xs` says what is left to visit
from a state at node `n` that goes on with child `c`, when the states below
it give the nibbles `pre`: the rest of the subtree post-order, then the node
itself; a hash node is resolved from the database of `t`, and its node
visited before it. The constructors follow the branches of the loop in
`step`.

A stack is a list of such states, each with what it has left
(`PendingStack`); the iterator stands at a visit when the rest comes after
it (`Visiting`). `Walk.descend` is the one induction: from any state with a
walk, the loop of `step` stops at the first visit of the walk, and leaves
the states that have the rest.
-/

namespace GoEthereum.Trie

set_option linter.dupNamespace false

/-- A visit: the key nibbles of the stack and the node at its top. -/
abbrev Visit := List UInt8 × Option Node

/-- The nibble that a full node's current child `c` gives the key. -/
def fullPart (c : Int) : List UInt8 := if c ≤ 16 then [UInt8.ofInt c] else []

/-- The nibbles that a short node's key gives the key. -/
def shortPart (key : List UInt8) : List UInt8 := if hasTerm key then key.dropLast else key

@[simp] theorem keyPart_full (h p : List UInt8) (children : List (Option Node)) (flags : NodeFlag) (c : Int) :
    keyPart ⟨h, some (.full children flags), p, c⟩ = fullPart c := rfl

@[simp] theorem keyPart_short (h p k : List UInt8) (val : Option Node) (flags : NodeFlag) (c : Int) :
    keyPart ⟨h, some (.short k val flags), p, c⟩ = shortPart k := rfl

@[simp] theorem keyPart_hash (h p hash : List UInt8) (c : Int) :
    keyPart ⟨h, some (.hash hash), p, c⟩ = [] := rfl

@[simp] theorem keyPart_value (h p v : List UInt8) (c : Int) :
    keyPart ⟨h, some (.value v), p, c⟩ = [] := rfl

@[simp] theorem keyPart_none (h p : List UInt8) (c : Int) : keyPart ⟨h, none, p, c⟩ = [] := rfl

/-- `Walk t pre n c xs`: from a state at `n` going on with child `c`, the
states below giving `pre`, the iterator visits `xs`. -/
inductive Walk (t : Trie) : List UInt8 → Option Node → Int → List Visit → Prop
  | none {pre : List UInt8} {c : Int} : Walk t pre none c [(pre, none)]
  | value {pre v : List UInt8} {c : Int} : Walk t pre (some (.value v)) c [(pre, some (.value v))]
  /-- a short node whose child is done is visited -/
  | shortDone {pre k : List UInt8} {val : Option Node} {flags : NodeFlag} {c : Int} (hc : 0 ≤ c) :
      Walk t pre (some (.short k val flags)) c [(pre ++ shortPart k, some (.short k val flags))]
  | short {pre k : List UInt8} {val : Option Node} {flags : NodeFlag} {xs : List Visit} :
      Walk t (pre ++ shortPart k) val (-1) xs →
      Walk t pre (some (.short k val flags)) (-1) (xs ++ [(pre ++ shortPart k, some (.short k val flags))])
  | hashDone {pre h : List UInt8} {c : Int} (hc : 0 ≤ c) :
      Walk t pre (some (.hash h)) c [(pre, some (.hash h))]
  | hash {pre h : List UInt8} {n : Node} {xs : List Visit} (hres : t.resolveHash h [] [] = .ok n) :
      Walk t pre (some n) (-1) xs → Walk t pre (some (.hash h)) (-1) (xs ++ [(pre, some (.hash h))])
  /-- a full node with no child left is visited, with the child index the
  loop leaves it at -/
  | fullDone {pre : List UInt8} {children : List (Option Node)} {flags : NodeFlag} {c : Int}
      (hc : -1 ≤ c) (hdone : children.length ≤ c ∨ nextChild children (c + 1).toNat = none) :
      Walk t pre (some (.full children flags)) c
        [(pre ++ fullPart (max c children.length), some (.full children flags))]
  | full {pre : List UInt8} {children : List (Option Node)} {flags : NodeFlag} {c : Int} {j : Nat}
      {n : Node} {xs ys : List Visit} (hc : -1 ≤ c) (hlt : c < children.length)
      (hnext : nextChild children (c + 1).toNat = some (j, n)) :
      Walk t (pre ++ fullPart j) (some n) (-1) xs → Walk t pre (some (.full children flags)) j ys →
      Walk t pre (some (.full children flags)) c (xs ++ ys)

/-- What the states of a stack, top first, have left to visit, each with
the key nibbles of the states below it. -/
def PendingStack (t : Trie) : List nodeIteratorState → List Visit → Prop
  | [], xs => xs = []
  | e :: S, xs => ∃ ys zs, Walk t (S.reverse.flatMap keyPart) e.node e.child ys ∧ PendingStack t S zs ∧ xs = ys ++ zs

/-- The iterator stands at the top of `T`, the first of the visits `xs`:
the top's node with the key nibbles of the whole stack, and the states below
have the rest left. -/
def Visiting (t : Trie) (T : List nodeIteratorState) (xs : List Visit) : Prop :=
  ∃ e S rest, T = e :: S ∧ xs = (T.reverse.flatMap keyPart, e.node) :: rest ∧ PendingStack t S rest

theorem PendingStack_cons {t : Trie} {e : nodeIteratorState} {S : List nodeIteratorState} {ys zs : List Visit}
    (hw : Walk t (S.reverse.flatMap keyPart) e.node e.child ys) (hS : PendingStack t S zs) :
    PendingStack t (e :: S) (ys ++ zs) :=
  ⟨ys, zs, hw, hS, rfl⟩

/-- A state that stops the loop is visited first. -/
theorem Visiting_cons {t : Trie} {e : nodeIteratorState} {S : List nodeIteratorState} {zs : List Visit}
    (hS : PendingStack t S zs) :
    Visiting t (e :: S) ((S.reverse.flatMap keyPart ++ keyPart e, e.node) :: zs) :=
  ⟨e, S, zs, rfl, by simp, hS⟩

/-! ### The loop of step, branch by branch -/

section Descend

variable {t : Trie} {fuel : Nat} {h p : List UInt8} {c : Int} {S : List nodeIteratorState}

-- Each branch is the loop's body reduced at one kind of node: by `rfl` where
-- the body's `if` is decided by the state itself, and through `if_pos` or
-- `if_neg` where a hypothesis decides it.

/-- The loop stops at none and at a value node. -/
theorem descend_none :
    NodeIterator.descend t (fuel + 1) (⟨h, none, p, c⟩ :: S) = some (.ok (⟨h, none, p, c⟩ :: S)) := rfl

theorem descend_value {v : List UInt8} :
    NodeIterator.descend t (fuel + 1) (⟨h, some (.value v), p, c⟩ :: S) =
      some (.ok (⟨h, some (.value v), p, c⟩ :: S)) := rfl

theorem descend_short_done {k : List UInt8} {val : Option Node} {flags : NodeFlag} (hc : 0 ≤ c) :
    NodeIterator.descend t (fuel + 1) (⟨h, some (.short k val flags), p, c⟩ :: S) =
      some (.ok (⟨h, some (.short k val flags), p, c⟩ :: S)) :=
  if_pos hc

theorem descend_short {k : List UInt8} {val : Option Node} {flags : NodeFlag} :
    NodeIterator.descend t (fuel + 1) (⟨h, some (.short k val flags), p, -1⟩ :: S) =
      NodeIterator.descend t fuel (⟨BytesToHash flags.hash, val, if h = zeroHash then p else h, -1⟩ ::
        ⟨h, some (.short k val flags), p, 0⟩ :: S) := rfl

theorem descend_hash_done {hash : List UInt8} (hc : 0 ≤ c) :
    NodeIterator.descend t (fuel + 1) (⟨h, some (.hash hash), p, c⟩ :: S) = some (.ok (⟨h, some (.hash hash), p, c⟩ :: S)) :=
  if_pos hc

theorem descend_hash {hash : List UInt8} {n : Node} (hres : t.resolveHash hash [] [] = .ok n) :
    NodeIterator.descend t (fuel + 1) (⟨h, some (.hash hash), p, -1⟩ :: S) =
      NodeIterator.descend t fuel (⟨BytesToHash hash, some n, if h = zeroHash then p else h, -1⟩ ::
        ⟨h, some (.hash hash), p, 0⟩ :: S) := by
  -- the loop's body at a hash node: the match on the node resolved
  conv_lhs => whnf
  rw [hres]
  rfl

theorem descend_full_done {children : List (Option Node)} {flags : NodeFlag} (hc : children.length ≤ c) :
    NodeIterator.descend t (fuel + 1) (⟨h, some (.full children flags), p, c⟩ :: S) =
      some (.ok (⟨h, some (.full children flags), p, c⟩ :: S)) :=
  if_pos hc

/-- No child left: the loop sets the child past the last and stops there
on its next round. -/
theorem descend_full_none {children : List (Option Node)} {flags : NodeFlag} (hlt : c < children.length)
    (hnext : nextChild children (c + 1).toNat = none) :
    NodeIterator.descend t (fuel + 2) (⟨h, some (.full children flags), p, c⟩ :: S) =
      some (.ok (⟨h, some (.full children flags), p, children.length⟩ :: S)) := by
  refine (if_neg (not_le.mpr hlt)).trans ?_
  rw [hnext]
  exact descend_full_done le_rfl

theorem descend_full_next {children : List (Option Node)} {flags : NodeFlag} {j : Nat} {n : Node}
    (hlt : c < children.length) (hnext : nextChild children (c + 1).toNat = some (j, n)) :
    NodeIterator.descend t (fuel + 1) (⟨h, some (.full children flags), p, c⟩ :: S) =
      NodeIterator.descend t fuel (⟨BytesToHash flags.hash, some n, if h = zeroHash then p else h, -1⟩ ::
        ⟨h, some (.full children flags), p, j⟩ :: S) := by
  refine (if_neg (not_le.mpr hlt)).trans ?_
  rw [hnext]

end Descend

/-! ### The loop stops at the first visit -/

/-- The loop of step, from stack `T₀`, stops at a stack where the iterator
visits `vs`, for every fuel from some on. -/
def Reaches (t : Trie) (T₀ : List nodeIteratorState) (vs : List Visit) : Prop :=
  ∃ T, Visiting t T vs ∧ ∃ f₀, ∀ f ≥ f₀, NodeIterator.descend t f T₀ = some (.ok T)

theorem Reaches.of_stop {t : Trie} {T₀ : List nodeIteratorState} {vs : List Visit}
    (hstop : ∀ f, NodeIterator.descend t (f + 1) T₀ = some (.ok T₀)) (hv : Visiting t T₀ vs) : Reaches t T₀ vs := by
  refine ⟨T₀, hv, 1, fun f hf => ?_⟩
  obtain ⟨f, rfl⟩ : ∃ f', f = f' + 1 := ⟨f - 1, by omega⟩
  exact hstop f

theorem Reaches.of_push {t : Trie} {T₀ T₁ : List nodeIteratorState} {vs : List Visit}
    (hpush : ∀ f, NodeIterator.descend t (f + 1) T₀ = NodeIterator.descend t f T₁) (h : Reaches t T₁ vs) :
    Reaches t T₀ vs := by
  obtain ⟨T, hv, f₀, hf₀⟩ := h
  refine ⟨T, hv, f₀ + 1, fun f hf => ?_⟩
  obtain ⟨f, rfl⟩ : ∃ f', f = f' + 1 := ⟨f - 1, by omega⟩
  rw [hpush f]
  exact hf₀ f (by omega)

section Descend

variable {t : Trie} {h p : List UInt8} {S : List nodeIteratorState} {zs : List Visit}

/-- A state that stops the loop is the first visit, with the key nibbles of
the states below and its own. -/
theorem Reaches.stop {n : Option Node} {c : Int} {part : List UInt8}
    (hstop : ∀ f, NodeIterator.descend t (f + 1) (⟨h, n, p, c⟩ :: S) = some (.ok (⟨h, n, p, c⟩ :: S)))
    (hpart : keyPart ⟨h, n, p, c⟩ = part) (hS : PendingStack t S zs) :
    Reaches t (⟨h, n, p, c⟩ :: S) ((S.reverse.flatMap keyPart ++ part, n) :: zs) :=
  Reaches.of_stop hstop (hpart ▸ Visiting_cons hS)

/-- From a state with a walk, the loop of step stops at the walk's first
visit, and the states it leaves have the rest of the walk and then what the
states below had left. -/
theorem Walk.descend {pre : List UInt8} {n : Option Node} {c : Int} {xs : List Visit}
    (hw : Walk t pre n c xs) :
    ∀ (h p : List UInt8) (S : List nodeIteratorState) (zs : List Visit),
      S.reverse.flatMap keyPart = pre → PendingStack t S zs → Reaches t (⟨h, n, p, c⟩ :: S) (xs ++ zs) := by
  induction hw with
  | none =>
    intro h p S zs hpre hS
    simpa [hpre] using Reaches.stop (fun _ => descend_none) rfl hS
  | value =>
    intro h p S zs hpre hS
    simpa [hpre] using Reaches.stop (fun _ => descend_value) rfl hS
  | shortDone hc =>
    intro h p S zs hpre hS
    simpa [hpre] using Reaches.stop (fun _ => descend_short_done hc) rfl hS
  | @short pre k val flags xs _ ih =>
    intro h p S zs hpre hS
    -- the child goes on top, the short node below it with its child done
    have hS' : PendingStack t (⟨h, some (.short k val flags), p, 0⟩ :: S)
        ([(pre ++ shortPart k, some (.short k val flags))] ++ zs) :=
      PendingStack_cons (hpre ▸ Walk.shortDone le_rfl) hS
    have hreach := ih (BytesToHash flags.hash) (if h = zeroHash then p else h) _ _ (by simp [hpre]) hS'
    simpa using Reaches.of_push (fun _ => descend_short) hreach
  | hashDone hc =>
    intro h p S zs hpre hS
    simpa [hpre] using Reaches.stop (fun _ => descend_hash_done hc) rfl hS
  | @hash pre hh n xs hres _ ih =>
    intro h p S zs hpre hS
    -- the resolved node goes on top, the hash node below it
    have hS' : PendingStack t (⟨h, some (.hash hh), p, 0⟩ :: S) ([(pre, some (.hash hh))] ++ zs) :=
      PendingStack_cons (hpre ▸ Walk.hashDone le_rfl) hS
    have hreach := ih (BytesToHash hh) (if h = zeroHash then p else h) _ _ (by simp [hpre]) hS'
    simpa using Reaches.of_push (fun _ => descend_hash hres) hreach
  | @fullDone pre children flags c hc hdone =>
    intro h p S zs hpre hS
    by_cases hlen : children.length ≤ c
    · have hmax : max c children.length = c := max_eq_left hlen
      simpa [hpre, hmax] using Reaches.stop (fun _ => descend_full_done hlen) rfl hS
    · -- the loop sets the child past the last, and stops there
      have hlt : c < children.length := lt_of_not_ge hlen
      have hnext : nextChild children (c + 1).toNat = Option.none := hdone.resolve_left hlen
      have hmax : max c children.length = children.length := max_eq_right hlt.le
      refine ⟨_, by simpa [hpre, hmax] using
        Visiting_cons (e := ⟨h, some (.full children flags), p, children.length⟩) hS, 2, fun f hf => ?_⟩
      obtain ⟨f, rfl⟩ : ∃ f', f = f' + 2 := ⟨f - 2, by omega⟩
      exact descend_full_none hlt hnext
  | @full pre children flags c j n xs ys hc hlt hnext _ hrest ih _ =>
    intro h p S zs hpre hS
    -- child j goes on top, the full node below it going on with child j
    have hS' : PendingStack t (⟨h, some (.full children flags), p, j⟩ :: S) (ys ++ zs) :=
      PendingStack_cons (hpre ▸ hrest) hS
    have hreach := ih (BytesToHash flags.hash) (if h = zeroHash then p else h) _ _ (by simp [hpre]) hS'
    simpa using Reaches.of_push (fun _ => descend_full_next hlt hnext) hreach

end Descend

/-- Every walk visits at least its own node. -/
theorem Walk.ne_nil {t : Trie} {pre : List UInt8} {n : Option Node} {c : Int} {xs : List Visit}
    (hw : Walk t pre n c xs) : xs ≠ [] := by
  induction hw <;> simp_all

/-! ### step, retrieve and Next -/

section Next

variable {keccak : List UInt8 → List UInt8} {it : NodeIterator} {t : Trie}

/-- The first step hashes the trie and stops at the first visit of the
walk of its root. -/
theorem step_init {root : List UInt8} {t' : Trie} {xs : List Visit} (htrie : it.trie = some t)
    (hstack : it.stack = []) (hhash : t.Hash keccak = .ok (root, t')) (hw : Walk t' [] t'.root (-1) xs) :
    ∃ T, Visiting t' T xs ∧
      ∃ f₀, ∀ f ≥ f₀, it.step keccak f = some (.ok { it with trie := some t', stack := T }) := by
  obtain ⟨T, hv, f₀, hf₀⟩ := hw.descend (if root ≠ emptyRoot then root else zeroHash) zeroHash [] [] rfl rfl
  refine ⟨T, by simpa using hv, f₀, fun f hf => ?_⟩
  simp only [NodeIterator.step, htrie, hstack, hhash, hf₀ f hf]
  rfl

/-- A later step pops the state visited and stops at the next visit, or
ends the walk after the last. -/
theorem step_next (keccak : List UInt8 → List UInt8) {x : Visit} {rest : List Visit} (htrie : it.trie = some t)
    (hv : Visiting t it.stack (x :: rest)) :
    (rest = [] ∧ ∀ f, it.step keccak f = some (.ok { it with trie := none, stack := [] })) ∨
      ∃ T, Visiting t T rest ∧ ∃ f₀, ∀ f ≥ f₀, it.step keccak f = some (.ok { it with stack := T }) := by
  obtain ⟨e, S, rest', hstack, hx, hS⟩ := hv
  obtain ⟨-, rfl⟩ := List.cons.inj hx
  cases S with
  | nil =>
    refine Or.inl ⟨hS, fun f => ?_⟩
    simp [NodeIterator.step, htrie, hstack]
  | cons e' S' =>
    obtain ⟨ys, zs, hw, hS', rfl⟩ := hS
    obtain ⟨T, hv, f₀, hf₀⟩ := hw.descend e'.hash e'.parent S' zs rfl hS'
    refine Or.inr ⟨T, hv, f₀, fun f hf => ?_⟩
    simp only [NodeIterator.step, htrie, hstack, reduceCtorEq, if_false, hf₀ f hf]
    rfl

/-- retrieve at a stack: the fields of the state on top, a leaf for a value
node. -/
theorem retrieve_cons {e : nodeIteratorState} {S : List nodeIteratorState} (htrie : it.trie = some t)
    (hstack : it.stack = e :: S) :
    ∃ it', it.retrieve = .ok (true, it') ∧ it'.trie = it.trie ∧ it'.stack = it.stack ∧ it'.Error = it.Error ∧
      (it'.Leaf = true ↔ ∃ v, e.node = some (.value v)) ∧ ∀ v, e.node = some (.value v) → it'.LeafBlob = v := by
  rcases hn : e.node with _ | ((_ | _ | _ | v) : Node)
  all_goals simp [NodeIterator.retrieve, htrie, hstack, hn]

/-- The fields of the node iterator show visit `y`: a leaf with its value
for a value node, and the key nibbles on its stack. -/
def Shows (it : NodeIterator) (y : Visit) : Prop :=
  (it.Leaf = true ↔ ∃ v, y.2 = some (.value v)) ∧ (∀ v, y.2 = some (.value v) → it.LeafBlob = v) ∧
    it.stack.reverse.flatMap keyPart = y.1

/-- What the node iterator visits from here on: it is new, with a trie
whose hashed root walks `vs`, or it stands at a visit with `vs` after it. -/
def NextVisits (keccak : List UInt8 → List UInt8) (it : NodeIterator) (vs : List Visit) : Prop :=
  it.Error = none ∧
    ((it.stack = [] ∧ ∃ t root t', it.trie = some t ∧ t.Hash keccak = .ok (root, t') ∧ Walk t' [] t'.root (-1) vs) ∨
      ∃ t x, it.trie = some t ∧ Visiting t it.stack (x :: vs))

/-- A step that stops at visit `y` makes Next show it. -/
theorem Next_of_step {fuel : Nat} {it₁ : NodeIterator} {y : Visit} {rest : List Visit} (herr : it.Error = none)
    (hstep : it.step keccak fuel = some (.ok it₁)) (htrie : it₁.trie = some t) (herr₁ : it₁.Error = none)
    (hv : Visiting t it₁.stack (y :: rest)) :
    ∃ it', it.Next keccak fuel = some (.ok (true, it')) ∧ NextVisits keccak it' rest ∧ Shows it' y ∧
      it' = (it₁.retrieve.toOption.map (·.2)).getD it₁ := by
  obtain ⟨e, S, rest', hstack, hy, hS⟩ := hv
  obtain ⟨it', hret, htrie', hstack', herr', hleaf, hblob⟩ := retrieve_cons htrie hstack
  obtain ⟨rfl, rfl⟩ := List.cons.inj hy
  refine ⟨it', ?_, ⟨herr'.trans herr₁, Or.inr ⟨t, (it₁.stack.reverse.flatMap keyPart, e.node),
    htrie'.trans htrie, ?_⟩⟩, ⟨hleaf, hblob, by rw [hstack']⟩, by simp [hret, Except.toOption]⟩
  · simp [NodeIterator.Next, herr, hstep, hret]
  · rw [hstack', hstack]
    exact ⟨e, S, rest, rfl, rfl, hS⟩

/-- Next moves to the next visit. -/
theorem Next_cons {y : Visit} {rest : List Visit} (h : NextVisits keccak it (y :: rest)) :
    ∃ it', NextVisits keccak it' rest ∧ Shows it' y ∧ ∃ f₀, ∀ f ≥ f₀, it.Next keccak f = some (.ok (true, it')) := by
  obtain ⟨herr, ⟨hstack, t, root, t', htrie, hhash, hw⟩ | ⟨t, x, htrie, hv⟩⟩ := h
  · obtain ⟨T, hv, f₀, hf₀⟩ := step_init htrie hstack hhash hw
    obtain ⟨it', -, hvis, hshow, heq⟩ := Next_of_step herr (hf₀ f₀ le_rfl) rfl herr hv
    refine ⟨it', hvis, hshow, f₀, fun f hf => ?_⟩
    -- the step, and so what Next returns, is the same for every fuel from f₀ on
    obtain ⟨it'', hnext, -, -, heq'⟩ := Next_of_step herr (hf₀ f hf) rfl herr hv
    rw [hnext, heq', ← heq]
  · rcases step_next keccak htrie hv with ⟨hnil, _⟩ | ⟨T, hv, f₀, hf₀⟩
    · exact absurd hnil (List.cons_ne_nil y rest)
    · obtain ⟨it', -, hvis, hshow, heq⟩ := Next_of_step herr (hf₀ f₀ le_rfl) htrie herr hv
      refine ⟨it', hvis, hshow, f₀, fun f hf => ?_⟩
      obtain ⟨it'', hnext, -, -, heq'⟩ := Next_of_step herr (hf₀ f hf) htrie herr hv
      rw [hnext, heq', ← heq]

/-- After the last visit Next returns false, with no error. -/
theorem Next_nil (h : NextVisits keccak it []) :
    ∃ it', it'.Error = none ∧ ∀ f, it.Next keccak f = some (.ok (false, it')) := by
  obtain ⟨herr, ⟨-, t, root, t', -, -, hw⟩ | ⟨t, x, htrie, hv⟩⟩ := h
  · exact absurd rfl hw.ne_nil
  · rcases step_next keccak htrie hv with ⟨-, hstep⟩ | ⟨T, ⟨e, S, rest, -, hnil, -⟩, -⟩
    · refine ⟨{ it with
          trie := none, stack := [], Hash := zeroHash, Node := none, Parent := zeroHash,
          Leaf := false, LeafBlob := [] }, herr, fun f => ?_⟩
      simp [NodeIterator.Next, herr, hstep f, NodeIterator.retrieve]
    · exact absurd hnil.symm (List.cons_ne_nil _ _)

end Next

/-! ### Iterator -/

/-- The key and value Iterator reads at a visit of a value node: the key
nibbles read back to bytes, and the value. -/
def Visit.leaf? (y : Visit) : Option (List UInt8 × List UInt8) :=
  match y.2 with
  | some (.value v) => some (decodeCompact y.1, v)
  | _ => none

/-- The keys and values Iterator yields for a list of visits, in order. -/
def leaves (vs : List Visit) : List (List UInt8 × List UInt8) := vs.filterMap Visit.leaf?

/-- What Iterator.Next returns before the visits `vs`: true at the first
leaf among them, with the visits after it still to come, or false when there
is none, with no error. -/
def Yields (keccak : List UInt8 → List UInt8) (vs : List Visit) : Bool → Iterator → Prop
  | true, it => ∃ rest, rest.length < vs.length ∧ leaves vs = (it.Key, it.Value) :: leaves rest ∧
      NextVisits keccak it.nodeIt rest
  | false, it => leaves vs = [] ∧ it.nodeIt.Error = none

section Run

variable {keccak : List UInt8 → List UInt8}

/-- Iterator.Next passes the visits that are not leaves and stops at the
first leaf, with its key and value. -/
theorem Iterator.Next_visits {vs : List Visit} :
    ∀ {it : Iterator}, NextVisits keccak it.nodeIt vs →
      ∃ b it', Yields keccak vs b it' ∧
        ∃ F₀, ∀ F ≥ F₀, ∀ n > vs.length, Iterator.Next keccak F n it = some (.ok (b, it')) := by
  induction vs with
  | nil =>
    intro it h
    obtain ⟨it₁, herr, hnext⟩ := Next_nil h
    refine ⟨false, { it with nodeIt := it₁, Key := [], Value := [] }, ⟨rfl, herr⟩, 0, fun F _ n hn => ?_⟩
    obtain ⟨n, rfl⟩ : ∃ m, n = m + 1 := ⟨n - 1, by simp at hn; omega⟩
    simp [Iterator.Next, hnext F]
  | cons y rest ih =>
    intro it h
    obtain ⟨it₁, hvis, ⟨hleaf, hblob, hkey⟩, f₀, hf₀⟩ := Next_cons h
    by_cases hval : ∃ v, y.2 = some (.value v)
    · -- a leaf: Next stops here with its key and value
      obtain ⟨v, hv⟩ := hval
      have hLeaf : it₁.Leaf = true := hleaf.mpr ⟨v, hv⟩
      refine ⟨true, { it with nodeIt := it₁, Key := Iterator.makeKey { it with nodeIt := it₁ }, Value := it₁.LeafBlob },
        ⟨rest, by simp, ?_, hvis⟩, f₀, fun F hF n hn => ?_⟩
      · simp [leaves, Visit.leaf?, hv, Iterator.makeKey, hkey, hblob v hv]
      · obtain ⟨n, rfl⟩ : ∃ m, n = m + 1 := ⟨n - 1, by simp at hn; omega⟩
        simp [Iterator.Next, hf₀ F hF, hLeaf]
    · -- not a leaf: Next goes on to the visits after it
      have hLeaf : it₁.Leaf = false := Bool.eq_false_iff.mpr fun h => hval (hleaf.mp h)
      have hskip : leaves (y :: rest) = leaves rest := by
        have : y.leaf? = none := by
          unfold Visit.leaf?
          split
          · next v hv => exact absurd ⟨v, hv⟩ hval
          · rfl
        simp [leaves, this]
      obtain ⟨b, it', hy, F₀, hF₀⟩ := @ih { it with nodeIt := it₁ } hvis
      refine ⟨b, it', ?_, max f₀ F₀, fun F hF n hn => ?_⟩
      · cases b with
        | true =>
          obtain ⟨rest', hlen, hl, hv⟩ := hy
          exact ⟨rest', by simp; omega, hskip.trans hl, hv⟩
        | false => exact ⟨hskip.trans hy.1, hy.2⟩
      · obtain ⟨n, rfl⟩ : ∃ m, n = m + 1 := ⟨n - 1, by simp at hn; omega⟩
        have hnext := hf₀ F (le_of_max_le_left hF)
        simp only [Iterator.Next, hnext, hLeaf, Bool.false_eq_true, if_false]
        exact hF₀ F (le_of_max_le_right hF) n (by simp at hn; omega)

/-- A caller's loop over Iterator.Next reads the leaves of the visits, in
order, and ends with no error. -/
theorem Iterator.collect_visits :
    ∀ k {vs : List Visit} {it : Iterator}, vs.length ≤ k → NextVisits keccak it.nodeIt vs →
      ∃ itEnd, itEnd.nodeIt.Error = none ∧
        ∃ F₀, ∀ F ≥ F₀, ∀ n > vs.length, it.collect keccak F n = some (.ok (leaves vs, itEnd)) := by
  intro k
  -- on the number of visits: each round passes at least one
  induction k with
  | zero =>
    intro vs it hk h
    obtain rfl : vs = [] := List.eq_nil_of_length_eq_zero (by omega)
    obtain ⟨b, it', hy, F₀, hF₀⟩ := Iterator.Next_visits h
    cases b with
    | true => obtain ⟨rest, hlen, -⟩ := hy; simp at hlen
    | false =>
      refine ⟨it', hy.2, max F₀ 1, fun F hF n hn => ?_⟩
      obtain ⟨n, rfl⟩ : ∃ m, n = m + 1 := ⟨n - 1, by simp at hn; omega⟩
      simp [Iterator.collect, hF₀ F (le_of_max_le_left hF) F (by simp; omega), leaves]
  | succ k ih =>
    intro vs it hk h
    obtain ⟨b, it', hy, F₀, hF₀⟩ := Iterator.Next_visits h
    cases b with
    | false =>
      refine ⟨it', hy.2, max F₀ (vs.length + 1), fun F hF n hn => ?_⟩
      obtain ⟨n, rfl⟩ : ∃ m, n = m + 1 := ⟨n - 1, by omega⟩
      simp [Iterator.collect, hF₀ F (le_of_max_le_left hF) F (by omega), hy.1]
    | true =>
      obtain ⟨rest, hlen, hl, hv⟩ := hy
      obtain ⟨itEnd, herr, F₁, hF₁⟩ := ih (by omega) hv
      refine ⟨itEnd, herr, max (max F₀ (vs.length + 1)) F₁, fun F hF n hn => ?_⟩
      obtain ⟨n, rfl⟩ : ∃ m, n = m + 1 := ⟨n - 1, by omega⟩
      have hnext := hF₀ F (by omega) F (by omega)
      simp only [Iterator.collect, hnext, hF₁ F (by omega) n (by omega), hl, Option.map_some]
      rfl

/-- NewIterator of a trie whose hash is not emptyState yields the leaves of
the walk of the root, in order, and never sets Error. The walk is that of
the trie as NewNodeIterator and then the first step leave it, each having
hashed it. -/
theorem NewIterator_collect (keccak : List UInt8 → List UInt8) {t t₁ t₂ : Trie} {root root' : List UInt8}
    {xs : List Visit} (hhash : t.Hash keccak = .ok (root, t₁)) (hroot : root ≠ emptyState)
    (hhash₁ : t₁.Hash keccak = .ok (root', t₂)) (hw : Walk t₂ [] t₂.root (-1) xs) :
    ∃ it itEnd, NewIterator keccak t = .ok it ∧ itEnd.nodeIt.Error = none ∧
      ∃ F₀, ∀ F ≥ F₀, it.collect keccak F F = some (.ok (leaves xs, itEnd)) := by
  let it₀ : Iterator := ⟨⟨some t₁, [], zeroHash, none, zeroHash, false, [], none⟩, [], []⟩
  have hnew : NewIterator keccak t = .ok it₀ := by
    simp [NewIterator, NewNodeIterator, hhash, hroot, it₀]
    rfl
  have hvis : NextVisits keccak it₀.nodeIt xs := ⟨rfl, Or.inl ⟨rfl, t₁, root', t₂, rfl, hhash₁, hw⟩⟩
  obtain ⟨itEnd, herr, F₀, hF₀⟩ := Iterator.collect_visits xs.length le_rfl hvis
  exact ⟨it₀, itEnd, hnew, herr, max F₀ (xs.length + 1), fun F hF => hF₀ F (by omega) F (by omega)⟩

end Run

end GoEthereum.Trie
