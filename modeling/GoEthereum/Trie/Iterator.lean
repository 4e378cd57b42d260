import GoEthereum.Trie.Hasher

/-!
The iterators of trie/iterator.go. NodeIterator walks the trie post-order
with a stack of states, one for each node on the path from the root to the
current node, each with the child to go on with; hash nodes are resolved
from the database on the way. Iterator runs it from leaf to leaf and builds
each leaf's key from the stack: the index of each full node's current
child, the key of each short node without its terminator, and then
`decodeCompact` of those nibbles, which drops the nibble 16 of a value kept
in the seventeenth slot of a full node.

The stack is kept with its top first, where Go appends to a slice; makeKey
reads it from the root. Go loops in `step` until the walk stops at a node,
and in `Iterator.Next` until a leaf: both loops take a `fuel` here and the
model returns none when it runs out.
-/

namespace GoEthereum.Trie

set_option linter.dupNamespace false

/-- nodeIteratorState: the hash of the node (zero if it is not standalone),
the node, the hash of its first full ancestor (zero for the root), and the
child to be processed next. -/
structure nodeIteratorState where
  hash : List UInt8
  node : Option Node
  parent : List UInt8
  child : Int

/-- NodeIterator, with its stack top first; `LeafBlob` is empty for none. -/
structure NodeIterator where
  trie : Option Trie
  stack : List nodeIteratorState
  Hash : List UInt8
  Node : Option Node
  Parent : List UInt8
  Leaf : Bool
  LeafBlob : List UInt8
  Error : Option TrieError

/-- The inner loop of step over the children of a full node from index `i`:
the first child that is not nil, with its index. -/
def nextChild (children : List (Option Node)) (i : Nat) : Option (Nat × Node) :=
  if h : i < children.length then
    match children[i] with
    | some c => some (i, c)
    | none => nextChild children (i + 1)
  else none
termination_by children.length - i

namespace NodeIterator

/-- The loop of step: from the state on top, push the child to go on with,
until a node with no child left. -/
def descend (t : Trie) : Nat → List nodeIteratorState → Option (Except TrieError (List nodeIteratorState))
  | 0, _ => none
  | _ + 1, [] => some (.error (.panic "index out of range"))
  | fuel + 1, parent :: rest =>
    let ancestor := if parent.hash = zeroHash then parent.parent else parent.hash
    match parent.node with
    | some (.full children flags) =>
      -- full node: its children, then the node itself
      if parent.child ≥ children.length then some (.ok (parent :: rest))
      else
        match nextChild children (parent.child + 1).toNat with
        | some (j, current) =>
          descend t fuel (⟨BytesToHash flags.hash, some current, ancestor, -1⟩ :: { parent with child := j } :: rest)
        | none => descend t fuel ({ parent with child := children.length } :: rest)
    | some (.short _ val flags) =>
      -- short node: its child, then the node itself
      if parent.child ≥ 0 then some (.ok (parent :: rest))
      else descend t fuel (⟨BytesToHash flags.hash, val, ancestor, -1⟩ :: { parent with child := parent.child + 1 } :: rest)
    | some (.hash hash) =>
      -- hash node: the node resolved from the database, then the hash node itself
      if parent.child ≥ 0 then some (.ok (parent :: rest))
      else
        match t.resolveHash hash [] [] with
        | .error e => some (.error e)
        | .ok node =>
          descend t fuel (⟨BytesToHash hash, some node, ancestor, -1⟩ :: { parent with child := parent.child + 1 } :: rest)
    | _ => some (.ok (parent :: rest))

/-- step: the iterator at the next node; none when the loop runs out of
fuel. The first step hashes the trie and starts from its root. -/
def step (keccak : List UInt8 → List UInt8) (fuel : Nat) (it : NodeIterator) :
    Option (Except TrieError NodeIterator) :=
  match it.trie with
  | none => some (.ok it)
  | some trie =>
    match it.stack with
    | [] =>
      match trie.Hash keccak with
      | .error e => some (.error e)
      | .ok (root, trie) =>
        let state : nodeIteratorState := ⟨if root ≠ emptyRoot then root else zeroHash, trie.root, zeroHash, -1⟩
        (descend trie fuel [state]).map (·.map fun stack => { it with trie := some trie, stack })
    | _ :: stack =>
      if stack = [] then some (.ok { it with trie := none, stack })
      else (descend trie fuel stack).map (·.map fun stack => { it with stack })

/-- retrieve: the fields of the node on top, and whether there is one. Go
indexes the stack without a check. -/
def retrieve (it : NodeIterator) : Except TrieError (Bool × NodeIterator) :=
  let it := { it with Hash := zeroHash, Node := none, Parent := zeroHash, Leaf := false, LeafBlob := [] }
  match it.trie, it.stack with
  | none, _ => .ok (false, it)
  | some _, [] => .error (.panic "index out of range")
  | some _, state :: _ =>
    let it := { it with Hash := state.hash, Node := state.node, Parent := state.parent }
    match state.node with
    | some (.value value) => .ok (true, { it with Leaf := true, LeafBlob := value })
    | _ => .ok (true, it)

/-- Next: whether the iterator moved to a node. An error of step is kept in
`Error`, after which Next does nothing; a panic is returned as an error. -/
def Next (keccak : List UInt8 → List UInt8) (fuel : Nat) (it : NodeIterator) :
    Option (Except TrieError (Bool × NodeIterator)) :=
  if it.Error.isSome then some (.ok (false, it))
  else
    match it.step keccak fuel with
    | none => none
    | some (.error (.panic m)) => some (.error (.panic m))
    | some (.error err) => some (.ok (false, { it with Error := some err }))
    | some (.ok it) => some it.retrieve

end NodeIterator

/-- NewNodeIterator: no trie to walk when the trie hashes to emptyState. -/
def NewNodeIterator (keccak : List UInt8 → List UInt8) (trie : Trie) : Except TrieError NodeIterator :=
  match trie.Hash keccak with
  | .error e => .error e
  | .ok (root, trie) =>
    .ok ⟨if root = emptyState then none else some trie, [], zeroHash, none, zeroHash, false, [], none⟩

/-- Iterator; `Key` and `Value` are empty for none. -/
structure Iterator where
  nodeIt : NodeIterator
  Key : List UInt8
  Value : List UInt8

/-- hasTerm of encoding.go: whether a hex key ends in the terminator. -/
def hasTerm (s : List UInt8) : Bool := s.length > 0 && s.getLast? = some 16

/-- The nibbles one state of the stack gives the key: the current child of
a full node, the key of a short node without its terminator. -/
def keyPart (se : nodeIteratorState) : List UInt8 :=
  match se.node with
  | some (.full _ _) => if se.child ≤ 16 then [UInt8.ofInt se.child] else []
  | some (.short key _ _) => if hasTerm key then key.dropLast else key
  | _ => []

namespace Iterator

def makeKey (it : Iterator) : List UInt8 :=
  decodeCompact (it.nodeIt.stack.reverse.flatMap keyPart)

/-- Next: whether the iterator moved to a leaf; `n` bounds the nodes it
passes on the way. -/
def Next (keccak : List UInt8 → List UInt8) (fuel : Nat) : Nat → Iterator →
    Option (Except TrieError (Bool × Iterator))
  | 0, _ => none
  | n + 1, it =>
    match it.nodeIt.Next keccak fuel with
    | none => none
    | some (.error e) => some (.error e)
    | some (.ok (true, nodeIt)) =>
      if nodeIt.Leaf then
        some (.ok (true, { it with nodeIt, Key := makeKey { it with nodeIt }, Value := nodeIt.LeafBlob }))
      else Next keccak fuel n { it with nodeIt }
    | some (.ok (false, nodeIt)) => some (.ok (false, { it with nodeIt, Key := [], Value := [] }))

end Iterator

def NewIterator (keccak : List UInt8 → List UInt8) (trie : Trie) : Except TrieError Iterator :=
  (NewNodeIterator keccak trie).map fun nodeIt => ⟨nodeIt, [], []⟩

/-- The loop of a caller over Next, as the trie tests run it: the keys and
values it reads until Next returns false, and the iterator then; `n` bounds
the rounds. -/
def Iterator.collect (keccak : List UInt8 → List UInt8) (fuel : Nat) : Nat → Iterator →
    Option (Except TrieError (List (List UInt8 × List UInt8) × Iterator))
  | 0, _ => none
  | n + 1, it =>
    match it.Next keccak fuel fuel with
    | none => none
    | some (.error e) => some (.error e)
    | some (.ok (false, it)) => some (.ok ([], it))
    | some (.ok (true, it)) => (collect keccak fuel n it).map (·.map fun r => ((it.Key, it.Value) :: r.1, r.2))

end GoEthereum.Trie
