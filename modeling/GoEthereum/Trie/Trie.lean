import GoEthereum.Trie.Node

/-!
The Merkle Patricia trie of trie/trie.go: lookup (`tryGet`), insertion
(`insert`) and deletion (`delete`) over the nodes of `GoEthereum.Trie.Node`,
with the hash nodes that are not loaded yet resolved from the database on
the way. Every node an operation creates or changes gets `newFlag`: dirty,
no cached hash, the current generation.

Go recurses into a resolved node at the same key; the model counts the
resolutions an operation may make (`resolves`). A decoded node consumes a
nibble before the next resolution, so one more resolution than the key has
nibbles is enough, which is what `TryGet`, `TryUpdate` and `TryDelete`
allow. The source's `prefix`, the nibbles consumed so far, is `path`.
-/

namespace GoEthereum.Trie

set_option linter.dupNamespace false

/-- The database under a trie, by key; none for a missing entry. -/
def Database := List UInt8 → Option (List UInt8)

def Database.Put (db : Database) (key value : List UInt8) : Database :=
  fun k => if k = key then some value else db k

structure Trie where
  root : Option Node
  db : Option Database
  originalRoot : List UInt8
  cachegen : UInt16
  cachelimit : UInt16

/-- The errors of the trie: MissingNodeError with its fields, or a runtime
panic. -/
inductive TrieError where
  | missingNode (RootHash NodeHash Key : List UInt8) (PrefixLen SuffixLen : Nat)
  | panic (message : String)

/-- crypto.Keccak256 of the RLP of the empty string. -/
def emptyRoot : List UInt8 :=
  [0x56, 0xe8, 0x1f, 0x17, 0x1b, 0xcc, 0x55, 0xa6, 0xff, 0x83, 0x45, 0xe6, 0x92, 0xc0, 0xf8, 0x6e,
   0x5b, 0x48, 0xe0, 0x1b, 0x99, 0x6c, 0xad, 0xc0, 0x01, 0x62, 0x2f, 0xb5, 0xe3, 0x63, 0xb4, 0x21]

/-- crypto.Keccak256 of nothing. -/
def emptyState : List UInt8 :=
  [0xc5, 0xd2, 0x46, 0x01, 0x86, 0xf7, 0x23, 0x3c, 0x92, 0x7e, 0x7d, 0xb2, 0xdc, 0xc7, 0x03, 0xc0,
   0xe5, 0x00, 0xb6, 0x53, 0xca, 0x82, 0x27, 0x3b, 0x7b, 0xfa, 0xd8, 0x04, 0x5d, 0x85, 0xa4, 0x70]

/-- common.Hash{} -/
def zeroHash : List UInt8 := List.replicate 32 0

/-! ### node.go -/

def NodeFlag.canUnload (n : NodeFlag) (cachegen cachelimit : UInt16) : Bool :=
  !n.dirty && cachegen - n.gen ≥ cachelimit

def Node.canUnload : Node → UInt16 → UInt16 → Bool
  | .full _ flags, gen, limit => flags.canUnload gen limit
  | .short _ _ flags, gen, limit => flags.canUnload gen limit
  | _, _, _ => false

/-- The cached hash (empty for none) and whether the node is dirty. -/
def Node.cache : Node → List UInt8 × Bool
  | .full _ flags => (flags.hash, flags.dirty)
  | .short _ _ flags => (flags.hash, flags.dirty)
  | _ => ([], true)

/-! ### encoding.go -/

/-- The length of the common prefix of `a` and `b`. -/
def prefixLen : List UInt8 → List UInt8 → Nat
  | x :: a, y :: b => if x = y then prefixLen a b + 1 else 0
  | _, _ => 0

/-! ### trie.go -/

namespace Trie

def newFlag (t : Trie) : NodeFlag := ⟨[], t.cachegen, true⟩

def SetCacheLimit (t : Trie) (l : UInt16) : Trie := { t with cachelimit := l }

def resolveHash (t : Trie) (n path suffix : List UInt8) : Except TrieError Node :=
  match t.db with
  -- the method call on a nil database
  | none => .error (.panic "invalid memory address or nil pointer dereference")
  | some db =>
    match db n with
    | none =>
      match compactHexEncode (path ++ suffix) with
      | none => .error (.panic "index out of range")
      | some key => .error (.missingNode t.originalRoot n key path.length suffix.length)
    | some enc =>
      -- mustDecodeNode
      match decodeNode n enc t.cachegen with
      | .ok dec => .ok dec
      | .error _ => .error (.panic "node: decode error")

def resolve (t : Trie) (n : Option Node) (path suffix : List UInt8) : Except TrieError (Option Node) :=
  match n with
  | some (.hash h) => (t.resolveHash h path suffix).map some
  | n => .ok n

/-- A child of a full node, which Go indexes without a check. -/
def child (children : List (Option Node)) (i : UInt8) : Except TrieError (Option Node) :=
  match children[i.toNat]? with
  | some c => .ok c
  | none => .error (.panic "index out of range")

/-- A child is smaller than the node: what the recursion into a full node
decreases. -/
theorem sizeOf_lt_of_child {children : List (Option Node)} {i : UInt8} {c : Option Node}
    (h : child children i = .ok c) : sizeOf c < sizeOf children := by
  unfold child at h
  split at h
  · next hget =>
    cases h
    exact List.sizeOf_lt_of_mem (List.mem_of_getElem? hget)
  · cases h

/-- tryGet: the value, the node to put in place of `origNode` and whether a
hash node was resolved on the way. -/
def tryGet (t : Trie) : Nat → Option Node → List UInt8 → Nat →
    Except TrieError (Option (List UInt8) × Option Node × Bool)
  | _, none, _, _ => .ok (none, none, false)
  | _, some (.value v), _, _ => .ok (some v, some (.value v), false)
  | resolves, some (.short k val flags), key, pos =>
    if key.length - pos < k.length ∨ k ≠ (key.drop pos).take k.length then
      .ok (none, some (.short k val flags), false)
    else
      match tryGet t resolves val key (pos + k.length) with
      | .error e => .error e
      | .ok (value, newnode, didResolve) =>
        if didResolve then .ok (value, some (.short k newnode { flags with gen := t.cachegen }), true)
        else .ok (value, some (.short k val flags), false)
  | resolves, some (.full children flags), key, pos =>
    match key[pos]? with
    | none => .error (.panic "index out of range")
    | some i =>
      match hc : child children i with
      | .error e => .error e
      | .ok c =>
        have := sizeOf_lt_of_child hc
        match tryGet t resolves c key (pos + 1) with
        | .error e => .error e
        | .ok (value, newnode, didResolve) =>
          if didResolve then
            .ok (value, some (.full (children.set i.toNat newnode) { flags with gen := t.cachegen }), true)
          else .ok (value, some (.full children flags), false)
  | 0, some (.hash _), _, _ => .error (.panic "unreachable: more resolutions than nibbles")
  | resolves + 1, some (.hash h), key, pos =>
    match t.resolveHash h (key.take pos) (key.drop pos) with
    | .error e => .error e
    | .ok c =>
      match tryGet t resolves (some c) key pos with
      | .error e => .error e
      | .ok (value, newnode, _) => .ok (value, newnode, true)
termination_by resolves n => (resolves, sizeOf n)

section TryGet

variable {t : Trie} {resolves pos : Nat} {key : List UInt8}

/-- A hash node is resolved and the walk goes on in the loaded node, which
takes the hash node's place: tryGet reports a resolution. -/
theorem tryGet_hash {h : List UInt8} {c : Node}
    (hres : t.resolveHash h (key.take pos) (key.drop pos) = .ok c) :
    t.tryGet (resolves + 1) (some (.hash h)) key pos =
      (t.tryGet resolves (some c) key pos).map fun r => (r.1, r.2.1, true) := by
  rw [tryGet, hres]
  dsimp only
  cases t.tryGet resolves (some c) key pos <;> rfl

/-- A short node whose key is the rest of the key and which holds a value
gives the value and is kept as it is. -/
theorem tryGet_short_value {k v : List UInt8} {flags : NodeFlag} (hk : key.drop pos = k) :
    t.tryGet resolves (some (.short k (some (.value v)) flags)) key pos =
      .ok (some v, some (.short k (some (.value v)) flags), false) := by
  have hlen : k.length = key.length - pos := by rw [← hk, List.length_drop]
  have hmatch : ¬(key.length - pos < k.length ∨ k ≠ (key.drop pos).take k.length) := by
    rw [hk, List.take_length, not_or, not_lt, not_not]
    exact ⟨by omega, rfl⟩
  rw [tryGet, if_neg hmatch, tryGet]
  rfl

/-- A full node below which a hash node was resolved is copied, with the
new child in place and the trie's generation: the refresh of the path. -/
theorem tryGet_full_of_resolved {children : List (Option Node)} {flags : NodeFlag} {i : UInt8}
    {c nn : Option Node} {v : Option (List UInt8)} (hi : key[pos]? = some i)
    (hc : child children i = .ok c) (hget : t.tryGet resolves c key (pos + 1) = .ok (v, nn, true)) :
    t.tryGet resolves (some (.full children flags)) key pos =
      .ok (v, some (.full (children.set i.toNat nn) { flags with gen := t.cachegen }), true) := by
  rw [tryGet]
  simp only [hi]
  split
  · next e he => rw [hc] at he; cases he
  · next c' hc' =>
    rw [hc] at hc'
    cases hc'
    simp only [hget]
    rfl

end TryGet

def TryGet (t : Trie) (key : List UInt8) : Except TrieError (Option (List UInt8)) × Trie :=
  let key := compactHexDecode key
  match tryGet t (key.length + 1) t.root key 0 with
  | .error e => (.error e, t)
  | .ok (value, newroot, didResolve) => (.ok value, if didResolve then { t with root := newroot } else t)

/-- A slot of a new branch, which Go indexes without a check. -/
def setChild (children : List (Option Node)) (i : UInt8) (c : Option Node) :
    Except TrieError (List (Option Node)) :=
  if i.toNat < children.length then .ok (children.set i.toNat c) else .error (.panic "index out of range")

/-- insert: whether the trie changed, and the node to put in place of `n`. -/
def insert (t : Trie) (resolves : Nat) (n : Option Node) (path key : List UInt8) (value : Option Node) :
    Except TrieError (Bool × Option Node) :=
  if key.length = 0 then
    match n, value with
    | some (.value v), some (.value v') => .ok (v != v', value)
    | some (.value _), _ => .error (.panic "interface conversion: node is not trie.valueNode")
    | _, _ => .ok (true, value)
  else
    match n with
    | some (.short k val flags) =>
      if prefixLen key k = k.length then
        -- the whole key of the short node matches: insert below it
        match insert t resolves val (path ++ key.take (prefixLen key k)) (key.drop (prefixLen key k)) value with
        | .error e => .error e
        | .ok (false, _) => .ok (false, some (.short k val flags))
        | .ok (true, nn) => .ok (true, some (.short k nn t.newFlag))
      else
        -- branch out at the index where they differ
        match k[prefixLen key k]?, key[prefixLen key k]? with
        | some kb, some b =>
          match insert t resolves none (path ++ k.take (prefixLen key k + 1)) (k.drop (prefixLen key k + 1)) val with
          | .error e => .error e
          | .ok (_, c1) =>
            match setChild (List.replicate 17 none) kb c1 with
            | .error e => .error e
            | .ok children =>
              match insert t resolves none (path ++ key.take (prefixLen key k + 1))
                  (key.drop (prefixLen key k + 1)) value with
              | .error e => .error e
              | .ok (_, c2) =>
                match setChild children b c2 with
                | .error e => .error e
                | .ok children =>
                  if prefixLen key k = 0 then .ok (true, some (.full children t.newFlag))
                  else .ok (true, some (.short (key.take (prefixLen key k)) (some (.full children t.newFlag)) t.newFlag))
        | _, _ => .error (.panic "index out of range")
    | some (.full children flags) =>
      match key with
      | [] => .error (.panic "index out of range")
      | b :: rest =>
        match hc : child children b with
        | .error e => .error e
        | .ok c =>
          have := sizeOf_lt_of_child hc
          match insert t resolves c (path ++ [b]) rest value with
          | .error e => .error e
          | .ok (false, _) => .ok (false, some (.full children flags))
          | .ok (true, nn) => .ok (true, some (.full (children.set b.toNat nn) t.newFlag))
    | none => .ok (true, some (.short key value t.newFlag))
    | some (.hash h) =>
      match resolves with
      | 0 => .error (.panic "unreachable: more resolutions than nibbles")
      | resolves + 1 =>
        match t.resolveHash h path key with
        | .error e => .error e
        | .ok rn =>
          match insert t resolves (some rn) path key value with
          | .error e => .error e
          | .ok (false, _) => .ok (false, some rn)
          | .ok (true, nn) => .ok (true, nn)
    | some (.value _) => .error (.panic "invalid node")
termination_by (resolves, sizeOf n)

/-- The loop of delete over the children of a full node: the index of the
only child, -1 for none and -2 for more than one. -/
def onlyChildFrom : Nat → Int → List (Option Node) → Int
  | _, pos, [] => pos
  | i, pos, none :: cs => onlyChildFrom (i + 1) pos cs
  | i, pos, some _ :: cs => if pos = -1 then onlyChildFrom (i + 1) i cs else -2

def onlyChild (children : List (Option Node)) : Int := onlyChildFrom 0 (-1) children

/-- What delete puts in place of a full node whose children are now
`children`: a short node for the only child left, whose key gets the
child's nibble in front when the child is a short node. -/
def reduceFull (t : Trie) (children : List (Option Node)) (path : List UInt8) : Except TrieError (Option Node) :=
  match onlyChild children with
  | Int.ofNat pos =>
    if pos ≠ 16 then
      match t.resolve (children.getD pos none) path [pos.toUInt8] with
      | .error e => .error e
      | .ok (some (.short ck cv _)) => .ok (some (.short (pos.toUInt8 :: ck) cv t.newFlag))
      | .ok _ => .ok (some (.short [pos.toUInt8] (children.getD pos none) t.newFlag))
    else .ok (some (.short [pos.toUInt8] (children.getD pos none) t.newFlag))
  | Int.negSucc _ => .ok (some (.full children t.newFlag))

/-- delete: whether the trie changed, and the node to put in place of `n`. -/
def delete (t : Trie) (resolves : Nat) (n : Option Node) (path key : List UInt8) :
    Except TrieError (Bool × Option Node) :=
  match n with
  | some (.short k val flags) =>
    if prefixLen key k < k.length then .ok (false, some (.short k val flags))
    else if prefixLen key k = key.length then .ok (true, none)
    else
      match delete t resolves val (path ++ key.take k.length) (key.drop k.length) with
      | .error e => .error e
      | .ok (false, _) => .ok (false, some (.short k val flags))
      -- merge a short node left below into this one
      | .ok (true, some (.short ck cv _)) => .ok (true, some (.short (k ++ ck) cv t.newFlag))
      | .ok (true, child) => .ok (true, some (.short k child t.newFlag))
  | some (.full children flags) =>
    match key with
    | [] => .error (.panic "index out of range")
    | b :: rest =>
      match hc : child children b with
      | .error e => .error e
      | .ok c =>
        have := sizeOf_lt_of_child hc
        match delete t resolves c (path ++ [b]) rest with
        | .error e => .error e
        | .ok (false, _) => .ok (false, some (.full children flags))
        | .ok (true, nn) =>
          match t.reduceFull (children.set b.toNat nn) path with
          | .error e => .error e
          | .ok r => .ok (true, r)
  | some (.value _) => .ok (true, none)
  | none => .ok (false, none)
  | some (.hash h) =>
    match resolves with
    | 0 => .error (.panic "unreachable: more resolutions than nibbles")
    | resolves + 1 =>
      match t.resolveHash h path key with
      | .error e => .error e
      | .ok rn =>
        match delete t resolves (some rn) path key with
        | .error e => .error e
        | .ok (false, _) => .ok (false, some rn)
        | .ok (true, nn) => .ok (true, nn)
termination_by (resolves, sizeOf n)

/-- TryUpdate; a value of no bytes deletes the key. On an error the trie is
left as it was. -/
def TryUpdate (t : Trie) (key value : List UInt8) : Except TrieError Trie :=
  if value.length ≠ 0 then
    match t.insert ((compactHexDecode key).length + 1) t.root [] (compactHexDecode key) (some (.value value)) with
    | .error e => .error e
    | .ok (_, n) => .ok { t with root := n }
  else
    match t.delete ((compactHexDecode key).length + 1) t.root [] (compactHexDecode key) with
    | .error e => .error e
    | .ok (_, n) => .ok { t with root := n }

def TryDelete (t : Trie) (key : List UInt8) : Except TrieError Trie :=
  match t.delete ((compactHexDecode key).length + 1) t.root [] (compactHexDecode key) with
  | .error e => .error e
  | .ok (_, n) => .ok { t with root := n }

end Trie

/-- New: an empty trie for the zero hash and emptyRoot, the root loaded from
the database otherwise. -/
def New (root : List UInt8) (db : Option Database) : Except TrieError Trie :=
  if root ≠ zeroHash ∧ root ≠ emptyRoot then
    match db with
    | none => .error (.panic "trie.New: cannot use existing root without a database")
    | some _ =>
      match (⟨none, db, root, 0, 0⟩ : Trie).resolveHash root [] [] with
      | .error e => .error e
      | .ok rootnode => .ok ⟨some rootnode, db, root, 0, 0⟩
  else .ok ⟨none, db, root, 0, 0⟩

end GoEthereum.Trie
