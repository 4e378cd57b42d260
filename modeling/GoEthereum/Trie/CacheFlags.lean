import GoEthereum.Trie.Hasher
import Mathlib.Logic.Relation

/-!
The cache flags of trie nodes over runs of the trie's operations: the
generation of a node (node.go), its refresh by tryGet on the path to a
resolved hash node, and the hasher's shortcut for a node whose hash is
cached. The age of a node is the trie's cache generation less the node's,
modulo 2 ^ 16 since both are uint16; Commit moves the generation on.

A commit of a trie whose root is clean, has its hash cached and is younger
than the cache limit returns the trie with only its generation moved on
(`Commit_of_clean`), so a run of such commits ages the whole tree at once
(`Reachable.commits`). After 2 ^ 16 commits the generation is back where it
was, and a root refreshed later than one of its children is then the older
of the two.
-/

namespace GoEthereum.Trie

set_option linter.dupNamespace false

/-- The operations that return the trie, with what they take. -/
inductive Op where
  | TryGet (key : List UInt8)
  | TryUpdate (key value : List UInt8)
  | TryDelete (key : List UInt8)
  | Hash
  | Commit
  | CommitTo (db : Database)
  | SetCacheLimit (l : UInt16)

section Keccak

variable (keccak : List UInt8 → List UInt8)

/-- The trie after an operation, none where the operation fails. TryGet
returns the trie on an error too. -/
def Trie.apply (t : Trie) : Op → Option Trie
  | .TryGet key => some (t.TryGet key).2
  | .TryUpdate key value => (t.TryUpdate key value).toOption
  | .TryDelete key => (t.TryDelete key).toOption
  | .Hash => (t.Hash keccak).toOption.map (·.2)
  | .Commit => (t.Commit keccak).toOption.map (·.2)
  | .CommitTo db => (t.CommitTo keccak db).toOption.map (·.2.1)
  | .SetCacheLimit l => some (t.SetCacheLimit l)

/-- The tries that New, at any root and database, and then the operations
reach. -/
inductive Reachable : Trie → Prop
  | new {root : List UInt8} {db : Option Database} {t : Trie} : New root db = .ok t → Reachable t
  | step {t t' : Trie} {op : Op} : Reachable t → t.apply keccak op = some t' → Reachable t'

end Keccak

/-! ### Ages -/

/-- The flags of a short or a full node. -/
def Node.flags? : Node → Option NodeFlag
  | .full _ flags => some flags
  | .short _ _ flags => some flags
  | _ => none

/-- The nodes right below a node. -/
def Node.children : Node → List Node
  | .full children _ => children.reduceOption
  | .short _ val _ => val.toList
  | _ => []

/-- The age of a cache entry at generation `cachegen`, modulo 2 ^ 16. -/
def NodeFlag.age (f : NodeFlag) (cachegen : UInt16) : UInt16 := cachegen - f.gen

/-- Ages grow going down: along every path from the root, a node with flags
is at most as old as each node with flags right below it. -/
def AgesGrowDown (t : Trie) : Prop :=
  ∀ root, t.root = some root → ∀ p, Relation.ReflTransGen (fun a b => b ∈ Node.children a) root p →
    ∀ c ∈ p.children, ∀ fp fc, p.flags? = some fp → c.flags? = some fc →
      fp.age t.cachegen ≤ fc.age t.cachegen

/-- A root older than one of its children breaks `AgesGrowDown`. -/
theorem not_AgesGrowDown_of_root {t : Trie} {p c : Node} {fp fc : NodeFlag}
    (hroot : t.root = some p) (hc : c ∈ p.children) (hfp : p.flags? = some fp)
    (hfc : c.flags? = some fc) (hage : fc.age t.cachegen < fp.age t.cachegen) :
    ¬AgesGrowDown t := by
  intro h
  have hle := h p hroot p Relation.ReflTransGen.refl c hc fp fc hfp hfc
  rw [UInt16.le_iff_toNat_le] at hle
  rw [UInt16.lt_iff_toNat_lt] at hage
  omega

theorem Node.cache_of_flags {n : Node} {f : NodeFlag} (hf : n.flags? = some f) :
    n.cache = (f.hash, f.dirty) := by
  cases n <;> simp only [Node.flags?, Option.some.injEq, reduceCtorEq] at hf <;> subst hf <;> rfl

/-- A node is kept while its age is below the limit. -/
theorem Node.canUnload_of_age_lt {n : Node} {f : NodeFlag} {cachegen cachelimit : UInt16}
    (hf : n.flags? = some f) (hage : f.age cachegen < cachelimit) :
    n.canUnload cachegen cachelimit = false := by
  have hkeep : ¬cachegen - f.gen ≥ cachelimit := by
    rw [ge_iff_le, UInt16.le_iff_toNat_le, not_le]
    exact UInt16.lt_iff_toNat_lt.mp hage
  cases n <;> simp only [Node.flags?, Option.some.injEq, reduceCtorEq] at hf <;> subst hf <;>
    simp [Node.canUnload, NodeFlag.canUnload, hkeep]

/-- `k` generations on, an age that does not wrap has grown by `k`. -/
theorem NodeFlag.toNat_age_add (f : NodeFlag) (cachegen : UInt16) (k : Nat)
    (hk : (f.age cachegen).toNat + k < 2 ^ 16) :
    (f.age (cachegen + UInt16.ofNat k)).toNat = (f.age cachegen).toNat + k := by
  have hgen := UInt16.toNat_lt f.gen
  have hcachegen := UInt16.toNat_lt cachegen
  simp only [NodeFlag.age, UInt16.toNat_sub, UInt16.toNat_add, UInt16.toNat_ofNat'] at hk ⊢
  omega

/-! ### Commits of a clean root -/

section Keccak

variable (keccak : List UInt8 → List UInt8)

/-- hasher.hash returns a clean node with a cached hash as it is, when it
hashes into a database and the node is younger than the cache limit. -/
theorem hasher.hash_of_clean (h : hasher) {n : Node} {f : NodeFlag} {db : Database} (force : Bool)
    (hf : n.flags? = some f) (hhash : f.hash ≠ []) (hclean : f.dirty = false)
    (hkeep : n.canUnload h.cachegen h.cachelimit = false) :
    h.hash keccak n (some db) force = .ok (.hash f.hash, n, some db) := by
  rw [hasher.hash]
  simp [Node.cache_of_flags hf, hhash, hclean, hkeep]

/-- Commit of a trie whose root is clean, has its hash cached and is younger
than the cache limit writes nothing and moves the generation on. -/
theorem Trie.Commit_of_clean {t : Trie} {n : Node} {f : NodeFlag} {db : Database}
    (hdb : t.db = some db) (hroot : t.root = some n) (hf : n.flags? = some f)
    (hhash : f.hash ≠ []) (hclean : f.dirty = false)
    (hkeep : n.canUnload t.cachegen t.cachelimit = false) :
    t.Commit keccak = .ok (BytesToHash f.hash, { t with cachegen := t.cachegen + 1 }) := by
  obtain ⟨root, db', originalRoot, cachegen, cachelimit⟩ := t
  simp only at hdb hroot hkeep
  subst hdb hroot
  simp only [Trie.Commit, Trie.CommitTo, Trie.hashRoot,
    hasher.hash_of_clean keccak ⟨cachegen, cachelimit⟩ true hf hhash hclean hkeep]
  rfl

/-- A run of `k` commits of a trie whose root is clean, has its hash cached
and stays younger than the cache limit: the trie reached is the same but for
a generation `k` further on. -/
theorem Reachable.commits {t : Trie} {n : Node} {f : NodeFlag} (ht : Reachable keccak t)
    (hdb : t.db.isSome) (hroot : t.root = some n) (hf : n.flags? = some f)
    (hhash : f.hash ≠ []) (hclean : f.dirty = false) :
    ∀ k, (f.age t.cachegen).toNat + k ≤ t.cachelimit.toNat →
      Reachable keccak { t with cachegen := t.cachegen + UInt16.ofNat k } := by
  obtain ⟨root, db, originalRoot, cachegen, cachelimit⟩ := t
  obtain ⟨db, rfl⟩ := Option.isSome_iff_exists.mp hdb
  simp only at hroot
  subst hroot
  intro k
  -- the commits go one by one, the generation k further on after k of them
  induction k with
  | zero =>
    intro _
    simpa using ht
  | succ k ih =>
    intro hk
    have hlimit : cachelimit.toNat < 2 ^ 16 := UInt16.toNat_lt cachelimit
    have hage : (f.age (cachegen + UInt16.ofNat k)).toNat = (f.age cachegen).toNat + k :=
      NodeFlag.toNat_age_add f cachegen k (by simp only at hk; omega)
    have hkeep : n.canUnload (cachegen + UInt16.ofNat k) cachelimit = false := by
      apply Node.canUnload_of_age_lt hf
      rw [UInt16.lt_iff_toNat_lt, hage]
      simp only at hk
      omega
    refine @Reachable.step keccak _ _ .Commit (ih (by simp only at hk ⊢; omega)) ?_
    rw [Trie.apply, Trie.Commit_of_clean keccak
      (t := ⟨some n, some db, originalRoot, cachegen + UInt16.ofNat k, cachelimit⟩) rfl rfl hf hhash hclean hkeep]
    simp only [Except.toOption, Option.map_some]
    rw [UInt16.ofNat_add, ← UInt16.add_assoc]
    rfl

end Keccak

/-! ### A run in which the generation wraps -/

/-- The hashes of a root full node and of the two short nodes below it. -/
def wrapLeftHash : List UInt8 := List.replicate 32 1
def wrapRightHash : List UInt8 := List.replicate 32 2
def wrapRootHash : List UInt8 := List.replicate 32 3

/-- A short node of key [5, 16] with 32 bytes `b` as its value, loaded at `gen`. -/
def wrapLeaf (hash : List UInt8) (b : UInt8) (gen : UInt16) : Node :=
  .short [5, 16] (some (.value (List.replicate 32 b))) ⟨hash, gen, false⟩

/-- A database of three nodes: the root full node, whose children 0 and 1
are hash nodes, and the two short nodes under those hashes. -/
def wrapDb : Database := fun k =>
  if k = wrapRootHash then some ([0xf8, 0x51, 0xa0] ++ wrapLeftHash ++ [0xa0] ++ wrapRightHash ++ List.replicate 15 0x80)
  else if k = wrapLeftHash then some ([0xe2, 0x35, 0xa0] ++ List.replicate 32 0x11)
  else if k = wrapRightHash then some ([0xe2, 0x35, 0xa0] ++ List.replicate 32 0x22)
  else none

def wrapChildren : List (Option Node) :=
  [some (.hash wrapLeftHash), some (.hash wrapRightHash)] ++ List.replicate 15 none

theorem New_wrapRootHash :
    New wrapRootHash (some wrapDb) =
      .ok ⟨some (.full wrapChildren ⟨wrapRootHash, 0, false⟩), some wrapDb, wrapRootHash, 0, 0⟩ := by
  with_unfolding_all rfl

theorem resolveHash_wrapLeftHash {t : Trie} (ht : t.db = some wrapDb) (path suffix : List UInt8) :
    t.resolveHash wrapLeftHash path suffix = .ok (wrapLeaf wrapLeftHash 0x11 t.cachegen) := by
  rw [Trie.resolveHash, ht]
  with_unfolding_all rfl

theorem resolveHash_wrapRightHash {t : Trie} (ht : t.db = some wrapDb) (path suffix : List UInt8) :
    t.resolveHash wrapRightHash path suffix = .ok (wrapLeaf wrapRightHash 0x22 t.cachegen) := by
  rw [Trie.resolveHash, ht]
  with_unfolding_all rfl

/-- TryGet of a key through child `i` of a full root, where a hash node of a
leaf of key [5, 16] is, loads the leaf and refreshes the root's generation. -/
theorem TryGet_loads_leaf {t : Trie} {children : List (Option Node)} {flags : NodeFlag}
    {key : List UInt8} {i : UInt8} {h v : List UInt8} {lf : NodeFlag}
    (hkey : compactHexDecode key = [i, 5, 16]) (hroot : t.root = some (.full children flags))
    (hc : Trie.child children i = .ok (some (.hash h)))
    (hres : t.resolveHash h [i] [5, 16] = .ok (.short [5, 16] (some (.value v)) lf)) :
    (t.TryGet key).2 = { t with root := some (.full (children.set i.toNat
      (some (.short [5, 16] (some (.value v)) lf))) { flags with gen := t.cachegen }) } := by
  have hget : t.tryGet ([i, 5, 16].length + 1) (some (.full children flags)) [i, 5, 16] 0 =
      .ok (some v, some (.full (children.set i.toNat (some (.short [5, 16] (some (.value v)) lf)))
        { flags with gen := t.cachegen }), true) := by
    apply Trie.tryGet_full_of_resolved rfl hc
    rw [Trie.tryGet_hash hres, Trie.tryGet_short_value
      (show ([i, 5, 16] : List UInt8).drop (0 + 1) = [5, 16] from rfl)]
    rfl
  rw [Trie.TryGet]
  simp only [hkey, hroot, hget]
  rfl

/-- The trie New loads from `wrapDb`, with a cache limit of 65535. -/
def wrapStart : Trie :=
  ⟨some (.full wrapChildren ⟨wrapRootHash, 0, false⟩), some wrapDb, wrapRootHash, 0, 65535⟩

/-- The cache ages do not always grow going down. From New at the root of
`wrapDb` with a cache limit of 65535: TryGet loads the left leaf at
generation 0, 100 commits, TryGet loads the right leaf at generation 100 and
gives the root that generation, and 65436 commits bring the generation round
to 0, where the root's age is 65436 and the left leaf's is 0. -/
theorem cache_ages_wrap (keccak : List UInt8 → List UInt8) :
    ∃ t, Reachable keccak t ∧ ¬AgesGrowDown t := by
  have h1 : Reachable keccak wrapStart :=
    @Reachable.step keccak _ _ (.SetCacheLimit 65535) (Reachable.new New_wrapRootHash) rfl
  -- generation 0: the left leaf is loaded
  have h2 := @Reachable.step keccak _ _ (.TryGet [0x05]) h1
    (congrArg some (TryGet_loads_leaf (show compactHexDecode [0x05] = [0, 5, 16] by decide) rfl rfl
      (resolveHash_wrapLeftHash rfl _ _)))
  have h3 := Reachable.commits keccak h2 rfl rfl rfl (by decide) rfl 100 (by decide)
  -- generation 100: the right leaf is loaded and the root refreshed
  have h4 := @Reachable.step keccak _ _ (.TryGet [0x15]) h3
    (congrArg some (TryGet_loads_leaf (show compactHexDecode [0x15] = [1, 5, 16] by decide) rfl rfl
      (resolveHash_wrapRightHash rfl _ _)))
  -- the generation comes round to 0
  have h5 := Reachable.commits keccak h4 rfl rfl rfl (by decide) rfl 65436 (by decide)
  exact ⟨_, h5, not_AgesGrowDown_of_root rfl (List.mem_cons_self ..) rfl rfl (by decide)⟩

end GoEthereum.Trie
