import Mathlib.Logic.Function.Basic

/-!
The chain database of `core/database_util.go`, as the header chain reads and
writes it.

Each key family of the key-value store is one table: `headerPrefix ++ num ++
hash` holds the header, the same key with `tdSuffix` its total difficulty,
`headerPrefix ++ num ++ numSuffix` the canonical hash of a number, and
`headHeaderKey` the head header's hash. A missing entry reads as `none`, and a
missing canonical hash as the zero hash, which is how `GetCanonicalHash`
reports it. The fallback of the getters to the legacy key layout
(`oldBlockNumPrefix`, `oldBlockPrefix`) reads nothing in a database written by
this code and is left out, as is the hash-to-number table
(`blockHashPrefix`), which `WriteHeader` and `DeleteHeader` maintain but no
modelled function reads.
-/

namespace GoEthereum.Core

/-- A 32-byte hash; `0` is `common.Hash{}`, the value of a missing entry. -/
abbrev Hash := Nat

/-- The fields of `types.Header` that the chain code reads, `Number` standing
for `header.Number.Uint64()`. The last field stands for `header.Hash()`, the
Keccak-256 of the header's RLP encoding; it comes last because its name would
shadow the type of the others. -/
structure Header where
  ParentHash : Hash
  Number : UInt64
  Difficulty : Int
  Hash : Hash
  deriving DecidableEq, Repr

/-- The tables of the chain database. -/
structure ChainDb where
  headers : Hash × UInt64 → Option Header
  tds : Hash × UInt64 → Option Int
  canonical : UInt64 → Hash
  headHeaderHash : Hash

namespace ChainDb

/-! ### Readers and writers

Every accessor is tagged `@[simp]`, so that a sequence of writes followed by
a read simplifies to a lookup in `Function.update`s, which `simp` then
decides key by key. -/

@[simp] def GetCanonicalHash (db : ChainDb) (number : UInt64) : Hash :=
  db.canonical number

@[simp] def GetHeader (db : ChainDb) (hash : Hash) (number : UInt64) : Option Header :=
  db.headers (hash, number)

@[simp] def GetTd (db : ChainDb) (hash : Hash) (number : UInt64) : Option Int :=
  db.tds (hash, number)

@[simp] def WriteCanonicalHash (db : ChainDb) (hash : Hash) (number : UInt64) : ChainDb :=
  { db with canonical := Function.update db.canonical number hash }

@[simp] def WriteHeadHeaderHash (db : ChainDb) (hash : Hash) : ChainDb :=
  { db with headHeaderHash := hash }

/-- `WriteHeader` stores the header under its own number and hash. -/
@[simp] def WriteHeader (db : ChainDb) (header : Header) : ChainDb :=
  { db with headers := Function.update db.headers (header.Hash, header.Number) (some header) }

@[simp] def WriteTd (db : ChainDb) (hash : Hash) (number : UInt64) (td : Int) : ChainDb :=
  { db with tds := Function.update db.tds (hash, number) (some td) }

/-- `DeleteCanonicalHash` removes the entry, which then reads as the zero hash. -/
@[simp] def DeleteCanonicalHash (db : ChainDb) (number : UInt64) : ChainDb :=
  { db with canonical := Function.update db.canonical number 0 }

@[simp] def DeleteHeader (db : ChainDb) (hash : Hash) (number : UInt64) : ChainDb :=
  { db with headers := Function.update db.headers (hash, number) none }

@[simp] def DeleteTd (db : ChainDb) (hash : Hash) (number : UInt64) : ChainDb :=
  { db with tds := Function.update db.tds (hash, number) none }

/-- What `WriteGenesisBlock` leaves of the header tables in an empty
database: the genesis header, its total difficulty (its own difficulty) and
its canonical number. It writes the head block hash, not the head header
hash. -/
@[simp] def genesis (g : Header) : ChainDb where
  headers := Function.update (fun _ => none) (g.Hash, g.Number) (some g)
  tds := Function.update (fun _ => none) (g.Hash, g.Number) (some g.Difficulty)
  canonical := Function.update (fun _ => 0) g.Number g.Hash
  headHeaderHash := 0

end ChainDb

end GoEthereum.Core
