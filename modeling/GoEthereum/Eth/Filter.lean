import GoEthereum.Types.Bloom
import GoEthereum.Data.Float64

/-!
Log filtering (eth/filters/filter.go). `Find` calls `FindOnce` until it
returns nothing; each call returns the logs of the first block in the
filter's range with selected logs, searching block by block (`getLogs`,
which skips a block whose header bloom rules it out) or through the MIP-map
blooms (`mipFind`, windows of 1000000 down to 1000 blocks).

On a chain whose header blooms are those of its receipts (`Chain.backend`),
both searches return the first block with selected logs (`getLogs_chain`,
`mipFind_chain`) while the window bounds survive their round trip through
`float64`, which they do below `2 ^ 53`; above it a begin of `2 ^ 53 + 3`
rounds to `2 ^ 53 + 4` and that block is never searched.
-/

namespace GoEthereum.Eth.Filters

open GoEthereum.Types GoEthereum.Core GoEthereum.Float64

/-- common.Hash{}, which as a topic of a filter matches every topic. -/
def zeroHash : List UInt8 := List.replicate 32 0

/-- The fields of a header that filtering reads. -/
structure Header where
  Number : Nat
  Bloom : Bloom

/-- The calls to the backend that filtering makes. -/
structure Backend where
  /-- HeaderByNumber(rpc.LatestBlockNumber) -/
  latest : Option Header
  HeaderByNumber : Nat → Option Header
  GetReceipts : Header → List Receipt

/-- Filter; a block number of -1 is the latest block. -/
structure Filter where
  begin : Int
  «end» : Int
  addresses : List (List UInt8)
  topics : List (List (List UInt8))
  useMipMap : Bool

/-! ### Selecting logs -/

def includes (addresses : List (List UInt8)) (a : List UInt8) : Bool := addresses.any (· == a)

/-- The topics check of filterLogs: the log has a topic at each position of
the filter, and one of the position's topics is the wildcard or equals it. -/
def topicsMatch : List (List (List UInt8)) → List (List UInt8) → Bool
  | [], _ => true
  | _ :: _, [] => false
  | sub :: topics, t :: logTopics =>
    sub.any (fun topic => topic == zeroHash || t == topic) && topicsMatch topics logTopics

/-- The checks of filterLogs on one log; a bound of -1 or below is none. -/
def logMatches (fromBlock toBlock : Option Int) (addresses : List (List UInt8))
    (topics : List (List (List UInt8))) (log : Log) : Bool :=
  !(fromBlock.any fun b => 0 ≤ b && log.BlockNumber < b.toNat) &&
    !(toBlock.any fun b => 0 ≤ b && b.toNat < log.BlockNumber) &&
    (addresses.isEmpty || includes addresses log.Address) &&
    topicsMatch topics log.Topics

def filterLogs (logs : List Log) (fromBlock toBlock : Option Int) (addresses : List (List UInt8))
    (topics : List (List (List UInt8))) : List Log :=
  logs.filter (logMatches fromBlock toBlock addresses topics)

section Search

variable (keccak : List UInt8 → List UInt8) (backend : Backend) (db : MipmapDb)

def bloomFilter (bloom : Bloom) (addresses : List (List UInt8)) (topics : List (List (List UInt8))) : Bool :=
  (addresses.isEmpty || addresses.any (BloomLookup keccak bloom)) &&
    topics.all (fun sub => sub.any fun topic => topic == zeroHash || BloomLookup keccak bloom topic)

/-- The logs of a block that getLogs keeps. -/
def blockLogs (f : Filter) (header : Header) : List Log :=
  filterLogs ((backend.GetReceipts header).flatMap Receipt.Logs) none none f.addresses f.topics

/-- The loop of getLogs from block `i`, with `count` blocks left to `end`:
the logs of the first block that has some, and its number. -/
def getLogsLoop (f : Filter) («end» : Nat) : Nat → Nat → List Log × Nat
  | 0, _ => ([], «end»)
  | count + 1, i =>
    match backend.HeaderByNumber i with
    | none => ([], «end»)
    | some header =>
      if bloomFilter keccak header.Bloom f.addresses f.topics ∧ 0 < (blockLogs backend f header).length then
        (blockLogs backend f header, i)
      else getLogsLoop f «end» count (i + 1)

def getLogs (f : Filter) (start «end» : Nat) : List Log × Nat :=
  getLogsLoop keccak backend f «end» («end» + 1 - start) start

/-- The addresses loop of one window of mipFind: `found` is what the search
of the window returns, which the loop asks for at the first address and at
each later one whose bloom test passes; a non-empty answer ends mipFind. -/
def mipAddresses (bloom : Bloom) (found : List Log × Nat) : Bool → List (List UInt8) → Option (List Log × Nat)
  | _, [] => none
  | first, addr :: addrs =>
    if first || TestBytes keccak bloom addr then
      if 0 < found.1.length then some found else mipAddresses bloom found false addrs
    else mipAddresses bloom found first addrs

/-- The windows loop of mipFind at one level, from the window at `num`, with
`count` rounds of fuel; `search` searches a range one level down. The
bounds of a window go through float64 and back. -/
def mipWindows (f : Filter) (level : Nat) (search : Nat → Nat → List Log × Nat) (start «end» : Nat) :
    Nat → Nat → List Log × Nat
  | 0, _ => ([], «end»)
  | count + 1, num =>
    if num ≤ «end» then
      match mipAddresses keccak (GetMipmapBloom db num level)
          (search (max (roundToFloat64 num) (roundToFloat64 start))
            (min (roundToFloat64 (num + level - 1)) (roundToFloat64 «end»))) true f.addresses with
      | some found => found
      | none => mipWindows f level search start «end» count (num + level)
    else ([], «end»)

/-- mipFind over the levels from its depth on; the last level searches its
windows with getLogs. -/
def mipFind (f : Filter) : List Nat → Nat → Nat → List Log × Nat
  | [], _, «end» => ([], «end»)
  | level :: levels, start, «end» =>
    mipWindows keccak db f level
      (fun s e => if levels = [] then getLogs keccak backend f s e else mipFind f levels s e)
      start «end» («end» + 1 - start / level * level) (start / level * level)

def toUint64 (x : Int) : Nat := (x % 2 ^ 64).toNat

def toInt64 (x : Nat) : Int := if x < 2 ^ 63 then x else x - 2 ^ 64

/-- A block number of the filter against the head's. -/
def blockNo (head : Nat) (n : Int) : Nat := if n = -1 then head else toUint64 n

/-- The search FindOnce makes for the head `head`. -/
def findOnceSearch (f : Filter) (head : Nat) : List Log × Nat :=
  if !f.useMipMap || f.addresses.isEmpty then getLogs keccak backend f (blockNo head f.begin) (blockNo head f.«end»)
  else mipFind keccak backend db f MIPMapLevels (blockNo head f.begin) (blockNo head f.«end»)

def FindOnce (f : Filter) : List Log × Filter :=
  match backend.latest with
  | none => ([], f)
  | some head =>
    ((findOnceSearch keccak backend db f head.Number).1,
      { f with begin := toInt64 (((findOnceSearch keccak backend db f head.Number).2 + 1) % 2 ^ 64) })

/-- Find's loop with `fuel` rounds; the source's loop has no bound, and ends
when FindOnce returns nothing. -/
def findLoop : Nat → Filter → List Log → List Log
  | 0, _, logs => logs
  | fuel + 1, f, logs =>
    if (FindOnce keccak backend db f).1.length = 0 then logs
    else findLoop fuel (FindOnce keccak backend db f).2 (logs ++ (FindOnce keccak backend db f).1)

def Find (fuel : Nat) (f : Filter) : List Log := findLoop keccak backend db fuel f []

end Search

/-! ### Chains -/

/-- A chain of blocks `0` to `head` with the receipts of each. -/
structure Chain where
  head : Nat
  receipts : Nat → List Receipt

/-- The header of block `n`, whose bloom is CreateBloom of its receipts. -/
def Chain.header (keccak : List UInt8 → List UInt8) (c : Chain) (n : Nat) : Header :=
  ⟨n, CreateBloom keccak (c.receipts n)⟩

def Chain.backend (keccak : List UInt8 → List UInt8) (c : Chain) : Backend where
  latest := some (c.header keccak c.head)
  HeaderByNumber n := if n ≤ c.head then some (c.header keccak n) else none
  GetReceipts header := c.receipts header.Number

/-- The logs of block `n` that the filter selects; none past the head. -/
def selectedLogs (c : Chain) (f : Filter) (n : Nat) : List Log :=
  if n ≤ c.head then filterLogs ((c.receipts n).flatMap Receipt.Logs) none none f.addresses f.topics else []

/-- What Find is for: the selected logs of the blocks from `first` to
`last`, block after block. -/
def matchingLogs (c : Chain) (f : Filter) (first last : Nat) : List Log :=
  (List.range' first (last + 1 - first)).flatMap (selectedLogs c f)

/-- The first block from `start` to `end` with selected logs, and its logs,
as getLogs returns them. -/
def firstLogs (c : Chain) (f : Filter) (start «end» : Nat) : List Log × Nat :=
  match (List.range' start («end» + 1 - start)).find? (fun n => 0 < (selectedLogs c f n).length) with
  | some n => (selectedLogs c f n, n)
  | none => ([], «end»)

/-! ### What filterLogs selects -/

theorem includes_iff (addresses : List (List UInt8)) (a : List UInt8) :
    includes addresses a = true ↔ a ∈ addresses := by
  simp [includes]

/-- Without block bounds, filterLogs keeps a log when its address is one of
the filter's (if the filter has any) and its topics match position by
position. -/
theorem logMatches_iff (addresses : List (List UInt8)) (topics : List (List (List UInt8))) (log : Log) :
    logMatches none none addresses topics log = true ↔
      (addresses ≠ [] → log.Address ∈ addresses) ∧ topicsMatch topics log.Topics = true := by
  cases addresses with
  | nil => simp [logMatches]
  | cons a addresses => simp only [logMatches, includes_iff, Option.any_none, Bool.not_false,
      Bool.true_and, List.isEmpty_cons, Bool.false_or, Bool.and_eq_true, ne_eq,
      reduceCtorEq, not_false_eq_true, forall_const]

theorem exists_topic_of_topicsMatch {topics : List (List (List UInt8))} {logTopics : List (List UInt8)}
    (h : topicsMatch topics logTopics = true) {sub : List (List UInt8)} (hsub : sub ∈ topics) :
    ∃ topic ∈ sub, topic = zeroHash ∨ topic ∈ logTopics := by
  induction topics generalizing logTopics with
  | nil => cases hsub
  | cons sub' topics ih =>
    cases logTopics with
    | nil => simp [topicsMatch] at h
    | cons t logTopics =>
      simp only [topicsMatch, Bool.and_eq_true, List.any_eq_true, Bool.or_eq_true, beq_iff_eq] at h
      rcases List.mem_cons.mp hsub with rfl | hmem
      · obtain ⟨topic, hmem, hmatch⟩ := h.1
        exact ⟨topic, hmem, hmatch.imp id (fun ht : t = topic => ht ▸ List.mem_cons_self ..)⟩
      · obtain ⟨topic, hmem', hmatch⟩ := ih h.2 hmem
        exact ⟨topic, hmem', hmatch.imp id (List.mem_cons_of_mem t)⟩

section Chain

variable (keccak : List UInt8 → List UInt8) (db : MipmapDb) (c : Chain) (f : Filter)

/-- A block with a log that filterLogs keeps passes the bloom filter of
its header. -/
theorem bloomFilter_of_mem {receipts : List Receipt} {log : Log} (hlog : log ∈ receipts.flatMap Receipt.Logs)
    {addresses : List (List UInt8)} {topics : List (List (List UInt8))}
    (hmatch : logMatches none none addresses topics log = true) :
    bloomFilter keccak (CreateBloom keccak receipts) addresses topics = true := by
  obtain ⟨haddr, htopics⟩ := BloomLookup_CreateBloom keccak hlog
  obtain ⟨hin, hmatch⟩ := (logMatches_iff addresses topics log).mp hmatch
  simp only [bloomFilter, Bool.and_eq_true, Bool.or_eq_true, List.isEmpty_iff, List.any_eq_true,
    List.all_eq_true, beq_iff_eq]
  refine ⟨?_, fun sub hsub => ?_⟩
  · by_cases hnil : addresses = []
    · exact Or.inl hnil
    · exact Or.inr ⟨log.Address, hin hnil, haddr⟩
  · obtain ⟨topic, hmem, hwild | htopic⟩ := exists_topic_of_topicsMatch hmatch hsub
    · exact ⟨topic, hmem, Or.inl hwild⟩
    · exact ⟨topic, hmem, Or.inr (htopics topic htopic)⟩

theorem selectedLogs_of_lt {n : Nat} (h : c.head < n) : selectedLogs c f n = [] := by
  rw [selectedLogs, if_neg (by omega)]

/-- The header of a block with selected logs passes the bloom filter. -/
theorem bloomFilter_header {n : Nat} (h : 0 < (selectedLogs c f n).length) :
    bloomFilter keccak (c.header keccak n).Bloom f.addresses f.topics = true := by
  obtain ⟨log, hlog⟩ := List.exists_mem_of_length_pos h
  have hn : n ≤ c.head := by
    by_contra hn
    rw [selectedLogs_of_lt c f (by omega)] at hlog
    cases hlog
  rw [selectedLogs, if_pos hn, filterLogs, List.mem_filter] at hlog
  exact bloomFilter_of_mem keccak hlog.1 hlog.2

theorem blockLogs_header {n : Nat} (hn : n ≤ c.head) :
    blockLogs (c.backend keccak) f (c.header keccak n) = selectedLogs c f n := by
  rw [selectedLogs, if_pos hn]
  rfl

/-! ### The first block with selected logs -/

theorem firstLogs_of_lt {s e : Nat} (h : e < s) : firstLogs c f s e = ([], e) := by
  rw [firstLogs, Nat.sub_eq_zero_of_le (by omega)]
  rfl

theorem firstLogs_of_le {s e : Nat} (h : s ≤ e) :
    firstLogs c f s e =
      if 0 < (selectedLogs c f s).length then (selectedLogs c f s, s) else firstLogs c f (s + 1) e := by
  have hcount : e + 1 - s = (e + 1 - (s + 1)) + 1 := by omega
  by_cases hs : 0 < (selectedLogs c f s).length
  · rw [firstLogs, hcount, List.range'_succ, List.find?_cons, if_pos hs]
    simp [hs]
  · rw [firstLogs, hcount, List.range'_succ, List.find?_cons, if_neg hs]
    simp only [hs, decide_false]
    rfl

theorem matchingLogs_of_lt {s e : Nat} (h : e < s) : matchingLogs c f s e = [] := by
  rw [matchingLogs, Nat.sub_eq_zero_of_le (by omega)]
  rfl

theorem matchingLogs_of_le {s e : Nat} (h : s ≤ e) :
    matchingLogs c f s e = selectedLogs c f s ++ matchingLogs c f (s + 1) e := by
  have hcount : e + 1 - s = (e + 1 - (s + 1)) + 1 := by omega
  rw [matchingLogs, hcount, List.range'_succ, List.flatMap_cons]
  rfl

/-- Past the head no block has logs. -/
theorem firstLogs_of_head_lt {s : Nat} (h : c.head < s) (e : Nat) : firstLogs c f s e = ([], e) := by
  have hnone : (List.range' s (e + 1 - s)).find? (fun n => 0 < (selectedLogs c f n).length) = none := by
    rw [List.find?_eq_none]
    intro n hn
    rw [selectedLogs_of_lt c f (by rw [List.mem_range'_1] at hn; omega)]
    simp
  rw [firstLogs, hnone]

/-- What firstLogs returns when it finds logs: a block of the range, whose
logs start those of the range. -/
theorem matchingLogs_of_firstLogs {s e : Nat} (h : 0 < (firstLogs c f s e).1.length) :
    s ≤ (firstLogs c f s e).2 ∧ (firstLogs c f s e).2 ≤ e ∧
      matchingLogs c f s e = (firstLogs c f s e).1 ++ matchingLogs c f ((firstLogs c f s e).2 + 1) e := by
  -- on the number of blocks from s to e
  obtain ⟨k, hk⟩ : ∃ k, e + 1 - s = k := ⟨_, rfl⟩
  induction k generalizing s with
  | zero => rw [firstLogs_of_lt c f (by omega)] at h; simp at h
  | succ k ih =>
    rw [firstLogs_of_le c f (by omega)] at h ⊢
    by_cases hs : 0 < (selectedLogs c f s).length
    · simp only [if_pos hs]
      exact ⟨le_rfl, by omega, matchingLogs_of_le c f (by omega)⟩
    · simp only [if_neg hs] at h ⊢
      obtain ⟨hle, hge, hlogs⟩ := ih h (by omega)
      have hnil : selectedLogs c f s = [] := List.eq_nil_of_length_eq_zero (by omega)
      exact ⟨by omega, hge, by rw [matchingLogs_of_le c f (by omega), hnil, List.nil_append, hlogs]⟩

theorem matchingLogs_of_firstLogs_nil {s e : Nat} (h : (firstLogs c f s e).1.length = 0) :
    matchingLogs c f s e = [] := by
  obtain ⟨k, hk⟩ : ∃ k, e + 1 - s = k := ⟨_, rfl⟩
  induction k generalizing s with
  | zero => exact matchingLogs_of_lt c f (by omega)
  | succ k ih =>
    rw [firstLogs_of_le c f (by omega)] at h
    by_cases hs : 0 < (selectedLogs c f s).length
    · simp only [if_pos hs] at h
      omega
    · simp only [if_neg hs] at h
      rw [matchingLogs_of_le c f (by omega), List.eq_nil_of_length_eq_zero (by omega : (selectedLogs c f s).length = 0),
        List.nil_append, ih h (by omega)]

/-- A range cut at `m`: the first block of the whole is that of the part
before `m`, or else that of the part after. -/
theorem firstLogs_split {s m e : Nat} (hsm : s ≤ m + 1) (hme : m ≤ e) :
    firstLogs c f s e =
      if 0 < (firstLogs c f s m).1.length then firstLogs c f s m else firstLogs c f (m + 1) e := by
  obtain ⟨k, hk⟩ : ∃ k, m + 1 - s = k := ⟨_, rfl⟩
  induction k generalizing s with
  | zero =>
    obtain rfl : s = m + 1 := by omega
    rw [firstLogs_of_lt c f (by omega : m < m + 1)]
    simp
  | succ k ih =>
    rw [firstLogs_of_le c f (by omega : s ≤ e), firstLogs_of_le c f (by omega : s ≤ m)]
    by_cases hs : 0 < (selectedLogs c f s).length
    · simp only [if_pos hs]
    · simp only [if_neg hs]
      exact ih (by omega) (by omega)

/-- An empty answer of firstLogs is the one for a range with no logs. -/
theorem firstLogs_of_length_eq_zero {s e : Nat} (h : (firstLogs c f s e).1.length = 0) :
    firstLogs c f s e = ([], e) := by
  rcases hfind : (List.range' s (e + 1 - s)).find? (fun n => 0 < (selectedLogs c f n).length) with _ | n
  · rw [firstLogs, hfind]
  · rw [firstLogs, hfind] at h
    have hpos := List.find?_some hfind
    simp only [decide_eq_true_eq] at hpos
    dsimp only at h
    omega

/-! ### getLogs on a chain -/

/-- getLogs returns the first block of its range with selected logs: a
block the header bloom skips has none. -/
theorem getLogs_chain (s e : Nat) : getLogs keccak (c.backend keccak) f s e = firstLogs c f s e := by
  unfold getLogs
  -- on the blocks left, from any block on
  obtain ⟨k, hk⟩ : ∃ k, e + 1 - s = k := ⟨_, rfl⟩
  rw [hk]
  induction k generalizing s with
  | zero => rw [getLogsLoop, firstLogs_of_lt c f (by omega)]
  | succ k ih =>
    rw [getLogsLoop]
    by_cases hhead : s ≤ c.head
    · have hheader : (c.backend keccak).HeaderByNumber s = some (c.header keccak s) := if_pos hhead
      rw [hheader]
      dsimp only
      rw [blockLogs_header keccak c f hhead, firstLogs_of_le c f (by omega)]
      by_cases hs : 0 < (selectedLogs c f s).length
      · rw [if_pos ⟨bloomFilter_header keccak c f hs, hs⟩, if_pos hs]
      · rw [if_neg (fun h => hs h.2), if_neg hs, ih (s + 1) (by omega)]
    · have hheader : (c.backend keccak).HeaderByNumber s = none := if_neg hhead
      rw [hheader, firstLogs_of_head_lt c f (by omega)]

/-! ### mipFind on a chain -/

theorem mipAddresses_of_length_eq_zero {found : List Log × Nat} (h : found.1.length = 0) (bloom : Bloom) :
    ∀ (first : Bool) (addrs : List (List UInt8)), mipAddresses keccak bloom found first addrs = none
  | _, [] => rfl
  | first, addr :: addrs => by
    rw [mipAddresses]
    split_ifs with _ hpos
    · omega
    · exact mipAddresses_of_length_eq_zero h bloom false addrs
    · exact mipAddresses_of_length_eq_zero h bloom first addrs

/-- The first address is searched without a bloom test. -/
theorem mipAddresses_first {found : List Log × Nat} (h : 0 < found.1.length) (bloom : Bloom)
    (addr : List UInt8) (addrs : List (List UInt8)) :
    mipAddresses keccak bloom found true (addr :: addrs) = some found := by
  rw [mipAddresses, if_pos (Bool.true_or _), if_pos h]

/-- The windows of one level from `num` on, each searched as a whole, find
the first block from `max num start` to `end`: a window's search begins
where the window or the range does, and the window after begins past
`start`. -/
theorem mipWindows_chain (hf : f.addresses ≠ []) {level : Nat} (hlevel : 0 < level)
    {search : Nat → Nat → List Log × Nat} (hsearch : ∀ s e, e < 2 ^ 53 → search s e = firstLogs c f s e)
    {start e : Nat} (he : e < 2 ^ 53) :
    ∀ count num, start < num + level → e + 1 - num ≤ count →
      mipWindows keccak db f level search start e count num = firstLogs c f (max num start) e := by
  intro count
  -- on the fuel, which is never what stops the loop
  induction count with
  | zero => intro num _ hcount; rw [mipWindows, firstLogs_of_lt c f (by omega)]
  | succ count ih =>
    intro num hstart hcount
    by_cases hnum : num ≤ e
    · rw [mipWindows, if_pos hnum, min_roundToFloat64_of_lt _ he]
      -- the window's range, with its bounds back from float64
      have hwindow : firstLogs c f (max (roundToFloat64 num) (roundToFloat64 start)) (min (num + level - 1) e) =
          firstLogs c f (max num start) (min (num + level - 1) e) := by
        by_cases hs : start < 2 ^ 53
        · rw [roundToFloat64_of_lt (by omega : num < 2 ^ 53), roundToFloat64_of_lt hs]
        · have hround := le_roundToFloat64 (Nat.le_of_not_lt hs)
          rw [firstLogs_of_lt c f (by omega), firstLogs_of_lt c f (by omega)]
      rw [hsearch _ _ (by omega), hwindow]
      obtain ⟨addr, addrs, haddrs⟩ := List.exists_cons_of_ne_nil hf
      rw [haddrs]
      by_cases hfound : 0 < (firstLogs c f (max num start) (min (num + level - 1) e)).1.length
      · -- the window has the first block
        rw [mipAddresses_first keccak hfound]
        dsimp only
        have hle := (matchingLogs_of_firstLogs c f hfound).1
        have hge := (matchingLogs_of_firstLogs c f hfound).2.1
        rw [firstLogs_split c f (s := max num start) (m := min (num + level - 1) e) (e := e) (by omega) (by omega),
          if_pos hfound]
      · -- it has none: the rest of the range starts at the next window
        rw [mipAddresses_of_length_eq_zero keccak (by omega)]
        dsimp only
        rw [ih (num + level) (by omega) (by omega), max_eq_left (by omega)]
        by_cases hlast : num + level - 1 < e
        · rw [min_eq_left (by omega)] at hfound
          rw [firstLogs_split c f (s := max num start) (m := num + level - 1) (e := e) (by omega) (by omega),
            if_neg hfound, Nat.sub_add_cancel (by omega)]
        · rw [min_eq_right (by omega)] at hfound
          rw [firstLogs_of_lt c f (by omega), firstLogs_of_length_eq_zero c f (by omega)]
    · rw [mipWindows, if_neg hnum, firstLogs_of_lt c f (by omega)]

/-- Below `2 ^ 53`, mipFind returns what getLogs does over its whole range. -/
theorem mipFind_chain (hf : f.addresses ≠ []) :
    ∀ (levels : List Nat), (∀ l ∈ levels, 0 < l) → levels ≠ [] → ∀ start e, e < 2 ^ 53 →
      mipFind keccak (c.backend keccak) db f levels start e = firstLogs c f start e
  | [], _, hne, _, _, _ => absurd rfl hne
  | level :: levels, hpos, _, start, e, he => by
    -- one level down: getLogs at the last level, mipFind at the others
    have hsearch : ∀ s e', e' < 2 ^ 53 →
        (if levels = [] then getLogs keccak (c.backend keccak) f s e'
          else mipFind keccak (c.backend keccak) db f levels s e') = firstLogs c f s e' := by
      intro s e' he'
      split_ifs with hnil
      · exact getLogs_chain keccak c f s e'
      · exact mipFind_chain hf levels (fun l hl => hpos l (List.mem_cons_of_mem _ hl)) hnil s e' he'
    have hlevel : 0 < level := hpos level List.mem_cons_self
    rw [mipFind, mipWindows_chain keccak db c f hf hlevel hsearch he _ _
      (Nat.lt_div_mul_add hlevel) le_rfl, max_eq_right (Nat.div_mul_le_self start level)]

/-! ### Find on a chain -/

theorem MIPMapLevels_pos : ∀ l ∈ MIPMapLevels, 0 < l := by
  decide

/-- Either search of FindOnce returns the first block with selected logs:
the block-by-block search always, the MIP-map search when the end is below
`2 ^ 53`. -/
theorem findOnceSearch_chain
    (hpath : blockNo c.head f.«end» < 2 ^ 53 ∨ (!f.useMipMap || f.addresses.isEmpty) = true) :
    findOnceSearch keccak (c.backend keccak) db f c.head =
      firstLogs c f (blockNo c.head f.begin) (blockNo c.head f.«end») := by
  unfold findOnceSearch
  split_ifs with hplain
  · exact getLogs_chain keccak c f _ _
  · have hf : f.addresses ≠ [] := by
      intro hnil
      simp [hnil] at hplain
    have he : blockNo c.head f.«end» < 2 ^ 53 := hpath.resolve_right hplain
    exact mipFind_chain keccak db c f hf MIPMapLevels MIPMapLevels_pos (by decide) _ _ he

theorem FindOnce_backend (g : Filter) :
    FindOnce keccak (c.backend keccak) db g =
      ((findOnceSearch keccak (c.backend keccak) db g c.head).1,
        { g with begin := toInt64 (((findOnceSearch keccak (c.backend keccak) db g c.head).2 + 1) % 2 ^ 64) }) :=
  rfl

/-- The block after `b` comes back from the int64 of FindOnce while it fits. -/
theorem blockNo_toInt64 (head : Nat) {b : Nat} (hb : b + 1 < 2 ^ 63) :
    blockNo head (toInt64 ((b + 1) % 2 ^ 64)) = b + 1 := by
  have hmod : (b + 1) % 2 ^ 64 = b + 1 := Nat.mod_eq_of_lt (by omega)
  have hint : toInt64 (b + 1) = ((b + 1 : Nat) : Int) := by rw [toInt64, if_pos (by omega)]
  rw [hmod, hint, blockNo, if_neg (by omega), toUint64]
  omega

theorem selectedLogs_with_begin (b : Int) : selectedLogs c { f with begin := b } = selectedLogs c f := rfl

/-- Find's loop, from any begin, collects the selected logs of the blocks
from begin to end, when it has a round for each block and one more. -/
theorem findLoop_chain
    (hpath : blockNo c.head f.«end» < 2 ^ 53 ∨ (!f.useMipMap || f.addresses.isEmpty) = true)
    (hend : blockNo c.head f.«end» + 1 < 2 ^ 63) :
    ∀ (fuel : Nat) (g : Filter) (acc : List Log), g = { f with begin := g.begin } →
      blockNo c.head f.«end» + 2 - blockNo c.head g.begin ≤ fuel →
      findLoop keccak (c.backend keccak) db fuel g acc =
        acc ++ matchingLogs c f (blockNo c.head g.begin) (blockNo c.head f.«end») := by
  intro fuel
  -- on the fuel: each round moves begin past the block it returns
  induction fuel with
  | zero =>
    intro g acc _ hfuel
    rw [findLoop, matchingLogs_of_lt c f (by omega), List.append_nil]
  | succ fuel ih =>
    intro g acc hg hfuel
    have hgend : g.«end» = f.«end» := by rw [hg]
    have hgpath : blockNo c.head g.«end» < 2 ^ 53 ∨
        (!g.useMipMap || g.addresses.isEmpty) = true := by
      rw [hg]
      exact hpath
    have honce : FindOnce keccak (c.backend keccak) db g =
        ((firstLogs c g (blockNo c.head g.begin) (blockNo c.head g.«end»)).1,
          { g with begin := toInt64 (((firstLogs c g (blockNo c.head g.begin)
            (blockNo c.head g.«end»)).2 + 1) % 2 ^ 64) }) := by
      rw [FindOnce_backend, findOnceSearch_chain keccak db c g hgpath]
    have hsel : selectedLogs c g = selectedLogs c f := by rw [hg, selectedLogs_with_begin]
    have hfirst : firstLogs c g = firstLogs c f := by
      funext s e
      simp only [firstLogs, hsel]
    rw [findLoop, honce, hfirst, hgend]
    dsimp only
    split_ifs with hnone
    · rw [matchingLogs_of_firstLogs_nil c f hnone, List.append_nil]
    · -- a block b with logs: the next round starts at b + 1
      obtain ⟨hle, hge, hlogs⟩ := matchingLogs_of_firstLogs c f (Nat.pos_of_ne_zero hnone)
      rw [ih _ _ (by rw [hg]) (by rw [blockNo_toInt64 _ (by omega)]; omega), blockNo_toInt64 _ (by omega),
        hlogs, List.append_assoc]

/-- Filter.Find returns the logs of the blocks from its begin to its end,
in block order, that filterLogs selects (`logMatches_iff`), once its loop has
enough rounds: on the block-by-block search for every end whose successor
fits an int64, and on the MIP-map search for an end below `2 ^ 53`. -/
theorem Find_eq_matchingLogs (fuel : Nat)
    (hpath : blockNo c.head f.«end» < 2 ^ 53 ∨ (!f.useMipMap || f.addresses.isEmpty) = true)
    (hend : blockNo c.head f.«end» + 1 < 2 ^ 63)
    (hfuel : blockNo c.head f.«end» + 2 - blockNo c.head f.begin ≤ fuel) :
    Find keccak (c.backend keccak) db fuel f =
      matchingLogs c f (blockNo c.head f.begin) (blockNo c.head f.«end») := by
  rw [Find, findLoop_chain keccak db c f hpath hend fuel f [] rfl hfuel, List.nil_append]

end Chain

/-- A chain of three blocks, the middle one with a log of an address with a
leading zero byte. -/
def smallChain : Chain := ⟨2, fun n => if n = 1 then [⟨[⟨[0, 7], [[5]], 1⟩]⟩] else []⟩

theorem Find_eq_matchingLogs_smallChain :
    blockNo smallChain.head (-1) < 2 ^ 53 ∧ blockNo smallChain.head (-1) + 2 - blockNo smallChain.head 0 ≤ 4 ∧
      Find id (smallChain.backend id) (fun _ _ => Bloom.zero) 4 ⟨0, -1, [[0, 7]], [[zeroHash]], true⟩ =
        matchingLogs smallChain ⟨0, -1, [[0, 7]], [[zeroHash]], true⟩
          (blockNo smallChain.head 0) (blockNo smallChain.head (-1)) :=
  ⟨by decide, by decide, Find_eq_matchingLogs id (fun _ _ => Bloom.zero) smallChain _ 4 (Or.inl (by decide))
    (by decide) (by decide)⟩

/-- A log in block `2 ^ 53 + 3`, the head of its chain. -/
def farLog : Log := ⟨[1], [], 2 ^ 53 + 3⟩

def farChain : Chain := ⟨2 ^ 53 + 3, fun n => if n = 2 ^ 53 + 3 then [⟨[farLog]⟩] else []⟩

/-- A filter of that block and address, through the MIP-map. -/
def farFilter : Filter := ⟨2 ^ 53 + 3, 2 ^ 53 + 3, [[1]], [], true⟩

/-- Past `2 ^ 53` the MIP-map search misses a block: the window of block
`2 ^ 53 + 3` is cut to `[2 ^ 53 + 4, 2 ^ 53 + 4]` by float64, so Find
returns nothing, whatever the hash and the MIP-map table. -/
theorem Find_farFilter (keccak : List UInt8 → List UInt8) (db : MipmapDb) (fuel : Nat) :
    Find keccak (farChain.backend keccak) db fuel farFilter = [] := by
  cases fuel with
  | zero => rfl
  | succ fuel =>
    have hsearch : (findOnceSearch keccak (farChain.backend keccak) db farFilter farChain.head).1 = [] := rfl
    rw [Find, findLoop, FindOnce_backend, hsearch]
    rfl

/-- The range of `farFilter` has one block, with a selected log, and Find
returns nothing for it, whatever the hash, the MIP-map table and the rounds. -/
theorem Find_misses_block_past_2_pow_53 (keccak : List UInt8 → List UInt8) (db : MipmapDb)
    (fuel : Nat) :
    Find keccak (farChain.backend keccak) db fuel farFilter = [] ∧
      matchingLogs farChain farFilter (blockNo farChain.head farFilter.begin)
        (blockNo farChain.head farFilter.«end») = [farLog] :=
  ⟨Find_farFilter keccak db fuel, by decide⟩

end GoEthereum.Eth.Filters
