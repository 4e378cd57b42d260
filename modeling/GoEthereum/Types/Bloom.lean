import GoEthereum.Data.BigEndian

/-!
Log blooms (core/types/bloom9.go) and the MIP-map bloom table of the chain
database (core/database_util.go). A bloom is the number of its 2048 bits;
`bloom9` of a byte string sets three of them, chosen by its Keccak-256 hash.
A header's bloom (`CreateBloom`) is the union of `bloom9` of every log's
address and topics at their full width; the MIP-map table
(`WriteMipmapBloom`) adds `bloom9` of every log's address read as a number,
whose bytes lose their leading zeroes through `big.Int`. A header's bloom
does not miss what was written into it (`BloomLookup_CreateBloom`).
-/

namespace GoEthereum.Types

open GoEthereum.BigEndian

/-- The fields of types.Log that filtering reads. -/
structure Log where
  Address : List UInt8
  Topics : List (List UInt8)
  BlockNumber : Nat
  deriving DecidableEq, Repr

structure Receipt where
  Logs : List Log
  deriving DecidableEq, Repr

def bloomLength : Nat := 256

/-- Bloom: its bytes as one number. -/
structure Bloom where
  value : Nat
  value_lt : value < 2 ^ (8 * bloomLength)

/-- The empty bloom, as BytesToBloom reads a missing entry. -/
def Bloom.zero : Bloom := ⟨0, Nat.two_pow_pos _⟩

/-! ### Holding a set of bits -/

/-- `bin` has every bit of `x` set: what `bin & x == x` tests. -/
def Holds (bin x : Nat) : Prop := bin &&& x = x

theorem holds_or_right (bin x : Nat) : Holds (bin ||| x) x := by
  apply Nat.eq_of_testBit_eq
  intro i
  simp only [Nat.testBit_and, Nat.testBit_or]
  cases bin.testBit i <;> cases x.testBit i <;> rfl

theorem Holds.or_left {bin x : Nat} (h : Holds bin x) (y : Nat) : Holds (bin ||| y) x := by
  apply Nat.eq_of_testBit_eq
  intro i
  have hi := congrArg (fun n => n.testBit i) h
  simp only [Nat.testBit_and, Nat.testBit_or] at hi ⊢
  cases hb : bin.testBit i <;> cases hx : x.testBit i <;> simp_all

theorem Holds.or_right {y x : Nat} (h : Holds y x) (bin : Nat) : Holds (bin ||| y) x := by
  rw [Nat.or_comm]
  exact h.or_left bin

section Fold

variable {σ α : Type} (P : σ → Prop) (step : σ → α → σ)

/-- In a fold whose every step keeps `P`, once the step at one element makes
`P` hold, it holds at the end. -/
theorem foldl_of_mem_step (hstep : ∀ b a, P b → P (step b a)) {a : α} {l : List α} (ha : a ∈ l)
    (hx : ∀ b, P (step b a)) (b : σ) : P (l.foldl step b) := by
  induction l generalizing b with
  | nil => cases ha
  | cons a' l ih =>
    rw [List.foldl_cons]
    rcases List.mem_cons.mp ha with rfl | hmem
    · exact List.foldlRecOn (motive := P) l step (hx b) (fun b hb a _ => hstep b a hb)
    · exact ih hmem _

end Fold

theorem or_lt_bloom {x y : Nat} (hx : x < 2 ^ (8 * bloomLength)) (hy : y < 2 ^ (8 * bloomLength)) :
    x ||| y < 2 ^ (8 * bloomLength) :=
  Nat.or_lt_two_pow hx hy

section Keccak

variable (keccak : List UInt8 → List UInt8)

/-- The bit that bytes `i` and `i + 1` of a hash select; Keccak-256 returns 32
bytes, so the default is never read. -/
def bloomBit (h : List UInt8) (i : Nat) : Nat :=
  ((h.getD (i + 1) 0).toNat + (h.getD i 0).toNat <<< 8) &&& 2047

def bloom9 (b : List UInt8) : Nat :=
  [0, 2, 4].foldl (fun r i => r ||| 1 <<< bloomBit (keccak b) i) 0

theorem bloomBit_lt (h : List UInt8) (i : Nat) : bloomBit h i < 2048 :=
  Nat.lt_succ_of_le Nat.and_le_right

theorem bloom9_lt (b : List UInt8) : bloom9 keccak b < 2 ^ (8 * bloomLength) := by
  have hbit : ∀ i, 1 <<< bloomBit (keccak b) i < 2 ^ (8 * bloomLength) := by
    intro i
    rw [Nat.one_shiftLeft]
    exact Nat.pow_lt_pow_right Nat.one_lt_two (by rw [bloomLength]; exact bloomBit_lt _ i)
  simp only [bloom9, List.foldl_cons, List.foldl_nil, Nat.zero_or]
  exact or_lt_bloom (or_lt_bloom (hbit 0) (hbit 2)) (hbit 4)

/-- BloomLookup: `topic` stands for the bytes of the value looked up. -/
def BloomLookup (bin : Bloom) (topic : List UInt8) : Bool :=
  bin.value &&& bloom9 keccak topic == bloom9 keccak topic

theorem BloomLookup_eq_true {bin : Bloom} {topic : List UInt8} (h : Holds bin.value (bloom9 keccak topic)) :
    BloomLookup keccak bin topic = true := by
  rw [BloomLookup, beq_iff_eq]
  exact h

/-- One log into a bloom: its address, then its topics. -/
def logBloom (bin : Nat) (log : Log) : Nat :=
  log.Topics.foldl (fun bin t => bin ||| bloom9 keccak t) (bin ||| bloom9 keccak log.Address)

def LogsBloom (logs : List Log) : Nat := logs.foldl (logBloom keccak) 0

theorem logBloom_lt {bin : Nat} (h : bin < 2 ^ (8 * bloomLength)) (log : Log) :
    logBloom keccak bin log < 2 ^ (8 * bloomLength) :=
  List.foldlRecOn (motive := (· < 2 ^ (8 * bloomLength))) _ _ (or_lt_bloom h (bloom9_lt keccak _))
    (fun _ hb t _ => or_lt_bloom hb (bloom9_lt keccak t))

/-- CreateBloom; the union stays within the bloom's bits, so BytesToBloom
takes all of it. -/
def CreateBloom (receipts : List Receipt) : Bloom :=
  ⟨receipts.foldl (fun bin r => bin ||| LogsBloom keccak r.Logs) 0,
    List.foldlRecOn (motive := (· < 2 ^ (8 * bloomLength))) _ _ (Nat.two_pow_pos _)
      (fun _ hb _ _ => or_lt_bloom hb
        (List.foldlRecOn (motive := (· < 2 ^ (8 * bloomLength))) _ _ (Nat.two_pow_pos _)
          (fun _ hb log _ => logBloom_lt keccak hb log)))⟩

/-- Bloom.Add: `d` is the big.Int, whose bytes are its minimal encoding. -/
def Bloom.Add (b : Bloom) (d : Nat) : Bloom :=
  ⟨b.value ||| bloom9 keccak (minimal d), or_lt_bloom b.value_lt (bloom9_lt keccak _)⟩

/-- TestBytes: the bytes are read back as a big.Int. -/
def TestBytes (b : Bloom) (test : List UInt8) : Bool := BloomLookup keccak b (minimal (value test))

/-! ### The header bloom misses nothing -/

theorem holds_logBloom_of_holds {bin x : Nat} (h : Holds bin x) (log : Log) :
    Holds (logBloom keccak bin log) x :=
  List.foldlRecOn (motive := (Holds · x)) _ _ (h.or_left _) (fun _ hb t _ => Holds.or_left hb (bloom9 keccak t))

/-- A log's bloom holds its address and every topic. -/
theorem holds_logBloom (bin : Nat) (log : Log) :
    Holds (logBloom keccak bin log) (bloom9 keccak log.Address) ∧
      ∀ t ∈ log.Topics, Holds (logBloom keccak bin log) (bloom9 keccak t) := by
  refine ⟨List.foldlRecOn (motive := (Holds · (bloom9 keccak log.Address))) _ _ (holds_or_right _ _)
    (fun _ hb t _ => Holds.or_left hb (bloom9 keccak t)), ?_⟩
  intro t ht
  exact foldl_of_mem_step (Holds · (bloom9 keccak t)) (fun bin t => bin ||| bloom9 keccak t)
    (fun _ t hb => Holds.or_left hb (bloom9 keccak t)) ht (fun b => holds_or_right b _) _

/-- The header bloom of a block holds the address and every topic of each
of its logs, as BloomLookup asks for them. -/
theorem BloomLookup_CreateBloom {receipts : List Receipt} {log : Log}
    (hlog : log ∈ receipts.flatMap Receipt.Logs) :
    BloomLookup keccak (CreateBloom keccak receipts) log.Address = true ∧
      ∀ t ∈ log.Topics, BloomLookup keccak (CreateBloom keccak receipts) t = true := by
  obtain ⟨r, hr, hin⟩ := List.mem_flatMap.mp hlog
  -- what the bloom of r's logs holds, the union over the receipts does
  have hunion : ∀ x, Holds (LogsBloom keccak r.Logs) x → Holds (CreateBloom keccak receipts).value x := by
    intro x hx
    exact foldl_of_mem_step (Holds · x) (fun bin r => bin ||| LogsBloom keccak r.Logs)
      (fun _ r hb => Holds.or_left hb (LogsBloom keccak r.Logs)) hr (fun b => hx.or_right b) 0
  -- and what a log's bloom holds, the bloom of the logs does
  have hlogs : ∀ x, (∀ acc, Holds (logBloom keccak acc log) x) → Holds (LogsBloom keccak r.Logs) x := by
    intro x hx
    exact foldl_of_mem_step (Holds · x) (logBloom keccak) (fun _ l hb => holds_logBloom_of_holds keccak hb l) hin hx 0
  refine ⟨BloomLookup_eq_true keccak (hunion _ (hlogs _ fun acc => (holds_logBloom keccak acc log).1)), ?_⟩
  intro t ht
  exact BloomLookup_eq_true keccak (hunion _ (hlogs _ fun acc => (holds_logBloom keccak acc log).2 t ht))

end Keccak

end GoEthereum.Types

namespace GoEthereum.Core

open GoEthereum.Types GoEthereum.BigEndian

def MIPMapLevels : List Nat := [1000000, 500000, 100000, 50000, 1000]

/-- The MIP-map blooms of the database by level and first block of their
window: the entry under mipmapKey(num, level), whose key is the level's eight
bytes and then the window's number, so that no two pairs share a key. A
missing entry reads as the empty bloom. -/
def MipmapDb := Nat → Nat → Bloom

def GetMipmapBloom (db : MipmapDb) (number level : Nat) : Bloom := db level (number / level * level)

section Keccak

variable (keccak : List UInt8 → List UInt8)

/-- The body of the loops of WriteMipmapBloom: the address of a log, as a
big.Int. -/
def addLog (bloom : Bloom) (log : Log) : Bloom := bloom.Add keccak (value log.Address)

def addAddresses (bloom : Bloom) (receipts : List Receipt) : Bloom :=
  receipts.foldl (fun bloom r => r.Logs.foldl (addLog keccak) bloom) bloom

/-- WriteMipmapBloom; the batch is written after every level has been read,
and the levels' keys differ. -/
def WriteMipmapBloom (db : MipmapDb) (number : Nat) (receipts : List Receipt) : MipmapDb :=
  fun level key =>
    if level ∈ MIPMapLevels ∧ key = number / level * level then
      addAddresses keccak (GetMipmapBloom db number level) receipts
    else db level key

/-- The table once blocks `0` to `n - 1` have been written. -/
def mipmaps (receipts : Nat → List Receipt) : Nat → MipmapDb
  | 0 => fun _ _ => Bloom.zero
  | n + 1 => WriteMipmapBloom keccak (mipmaps receipts n) n (receipts n)

end Keccak

end GoEthereum.Core
