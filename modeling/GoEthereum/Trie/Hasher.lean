import GoEthereum.Trie.Trie
import GoEthereum.Rlp.Value

/-!
Hashing and committing a trie (trie/hasher.go and the end of trie/trie.go).
`hash` collapses a node to what its parent stores of it: its hash node, or
the node itself when its encoding is shorter than a hash. It returns, next
to that, the node to keep in memory: a copy with its hash cached, clean when
the nodes went to a database. A node with a cached hash is not walked again:
without a database its hash is returned, with one it is unloaded to its hash
node when `canUnload` lets it, and returned as it is when clean.

Keccak-256 is a parameter of the model. The encoding is the RLP of the
collapsed node: a short node is the list of its compact key and its value, a
full node the list of its seventeen children, a child being the string of a
hash or a value (empty for none) or the list of an embedded node.
-/

namespace GoEthereum.Trie

set_option linter.dupNamespace false

open GoEthereum.Rlp

mutual

/-- The RLP value of a collapsed node. -/
def Node.toValue : Node → Value
  | .full children _ => .list (childValues children)
  | .short key val _ => .list [.bytes key, childValue val]
  | .hash h => .bytes h
  | .value v => .bytes v

/-- A child in a collapsed node; none is the empty string. -/
def childValue : Option Node → Value
  | none => .bytes []
  | some n => n.toValue

def childValues : List (Option Node) → List Value
  | [] => []
  | c :: cs => childValue c :: childValues cs

end

/-- The node with `hash` cached, and clean when it was stored. -/
def Node.setCache : Node → List UInt8 → Bool → Node
  | .short k v flags, h, stored => .short k v { flags with hash := h, dirty := if stored then false else flags.dirty }
  | .full c flags, h, stored => .full c { flags with hash := h, dirty := if stored then false else flags.dirty }
  | n, _, _ => n

/-- common.BytesToHash: the last 32 bytes, padded with zeroes in front. -/
def BytesToHash (b : List UInt8) : List UInt8 :=
  if b.length > 32 then b.drop (b.length - 32) else List.replicate (32 - b.length) 0 ++ b

structure hasher where
  cachegen : UInt16
  cachelimit : UInt16

section Keccak

variable (keccak : List UInt8 → List UInt8)

/-- store: a node whose encoding has at least 32 bytes, or the root
(`force`), is replaced by its hash and written to the database. -/
def hasher.store (n : Node) (db : Option Database) (force : Bool) : Node × Option Database :=
  match n with
  | .hash _ => (n, db)
  | _ =>
    if n.toValue.rlp.length < 32 ∧ !force then (n, db)
    else
      -- a cached hash is taken as it is
      let hash := if n.cache.1 = [] then keccak n.toValue.rlp else n.cache.1
      (.hash hash, db.map (·.Put hash n.toValue.rlp))

mutual

/-- hasher.hash: the collapsed node, the node to keep, and the database
written to. -/
def hasher.hash (h : hasher) (n : Node) (db : Option Database) (force : Bool) :
    Except TrieError (Node × Node × Option Database) :=
  if n.cache.1 ≠ [] ∧ db.isNone then .ok (.hash n.cache.1, n, db)
  else if n.cache.1 ≠ [] ∧ n.canUnload h.cachegen h.cachelimit then .ok (.hash n.cache.1, .hash n.cache.1, db)
  else if n.cache.1 ≠ [] ∧ !n.cache.2 then .ok (.hash n.cache.1, n, db)
  else
    match h.hashChildren n db with
    | .error e => .error e
    | .ok (collapsed, cached, db') =>
      match hasher.store keccak collapsed db' force with
      | (hashed, db'') =>
        .ok (hashed, cached.setCache (match hashed with
          | .hash hh => hh
          | _ => []) db.isSome, db'')
termination_by (sizeOf n, 2)

/-- hasher.hashChildren: the collapsed node and the copy to keep. -/
def hasher.hashChildren (h : hasher) (original : Node) (db : Option Database) :
    Except TrieError (Node × Node × Option Database) :=
  match original with
  | .short key val flags =>
    match compactEncode key with
    | none => .error (.panic "index out of range")
    | some ckey =>
      match val with
      | some (.value v) => .ok (.short ckey (some (.value v)) flags, .short key (some (.value v)) flags, db)
      -- h.hash(nil) calls a method of nil
      | none => .error (.panic "invalid memory address or nil pointer dereference")
      | some v =>
        match h.hash v db false with
        | .error e => .error e
        | .ok (collapsedVal, cachedVal, db) =>
          .ok (.short ckey (some collapsedVal) flags, .short key (some cachedVal) flags, db)
  | .full children flags =>
    match h.hashFullChildren children 0 db with
    | .error e => .error e
    | .ok (collapsed, cached, db) =>
      -- the value slot is kept as it is, an empty string for none
      .ok (.full (collapsed ++ [some ((children.getD 16 none).getD (.value []))]) flags,
        .full (cached ++ [children.getD 16 none]) flags, db)
  | n => .ok (n, n, db)
termination_by (sizeOf original, 1)

/-- The loop of hashChildren over children `i` to 15 of a full node. -/
def hasher.hashFullChildren (h : hasher) : List (Option Node) → Nat → Option Database →
    Except TrieError (List (Option Node) × List (Option Node) × Option Database)
  | [], _, db => .ok ([], [], db)
  | c :: cs, i, db =>
    if i < 16 then
      match c with
      | none =>
        match h.hashFullChildren cs (i + 1) db with
        | .error e => .error e
        | .ok (collapsed, cached, db) => .ok (some (.value []) :: collapsed, none :: cached, db)
      | some cn =>
        match h.hash cn db false with
        | .error e => .error e
        | .ok (collapsedChild, cachedChild, db) =>
          match h.hashFullChildren cs (i + 1) db with
          | .error e => .error e
          | .ok (collapsed, cached, db) => .ok (some collapsedChild :: collapsed, some cachedChild :: cached, db)
    else .ok ([], [], db)
termination_by children => (sizeOf children, 0)

end

/-- hashRoot: the root's hash node, the root to keep, and the database
written to. -/
def Trie.hashRoot (t : Trie) (db : Option Database) : Except TrieError (Node × Option Node × Option Database) :=
  match t.root with
  | none => .ok (.hash emptyRoot, none, db)
  | some root =>
    match (hasher.mk t.cachegen t.cachelimit).hash keccak root db true with
    | .error e => .error e
    | .ok (hashed, cached, db) => .ok (hashed, some cached, db)

/-- Hash: the root hash, and the trie with the hashes cached. -/
def Trie.Hash (t : Trie) : Except TrieError (List UInt8 × Trie) :=
  match t.hashRoot keccak none with
  | .ok (.hash hh, cached, _) => .ok (BytesToHash hh, { t with root := cached })
  | .ok _ => .error (.panic "interface conversion: node is not trie.hashNode")
  | .error e => .error e

/-- CommitTo: the root hash, the trie with its nodes clean and a generation
on, and the database written to. On an error the trie is left as it was. -/
def Trie.CommitTo (t : Trie) (db : Database) : Except TrieError (List UInt8 × Trie × Database) :=
  match t.hashRoot keccak (some db) with
  | .ok (.hash hh, cached, db') =>
    .ok (BytesToHash hh, { t with root := cached, cachegen := t.cachegen + 1 }, db'.getD db)
  | .ok _ => .error (.panic "interface conversion: node is not trie.hashNode")
  | .error e => .error e

/-- Commit: CommitTo the trie's own database. -/
def Trie.Commit (t : Trie) : Except TrieError (List UInt8 × Trie) :=
  match t.db with
  | none => .error (.panic "Commit called on trie with nil database")
  | some db =>
    match t.CommitTo keccak db with
    | .ok (root, t', db') => .ok (root, { t' with db := some db' })
    | .error e => .error e

end Keccak

end GoEthereum.Trie
