import Mathlib
import GoEthereum.Data.Search

/-!
The keystore's live index of its accounts (accounts/addrcache.go): every
account by key file, in the order of the files' names (`all`), and the
accounts of each address (`byAddr`). `add` puts an account where
`sort.Search` finds its file, `delete` removes one copy from both, and
`reload` rebuilds both from what a scan of the key directory found.

Every operation keeps the index `Valid` (`all` sorted by file, `byAddr`
listing the accounts of `all` with each address), so every run from
`newAddrCache` does (`newAddrCache_run_Valid`). On such a cache `find`
answers as it would looking in `all` alone, up to the order in which an
`AmbiguousAddrError` lists its matches (`run_find_hasAddress`).
-/

namespace GoEthereum.Accounts

open GoEthereum.Search

/-- common.Address: 20 bytes. -/
abbrev Address := Vector UInt8 20

/-- The zero address, common.Address{}. -/
def zeroAddress : Address := Vector.replicate 20 0

/-- A stored key: its address and the file it is in. -/
@[ext]
structure Account where
  Address : Address
  File : String
  deriving DecidableEq, Repr

/-- The errors of `find`. -/
inductive FindError
  | ErrNoMatch
  | AmbiguousAddrError (Addr : Address) (Matches : List Account)
  deriving DecidableEq, Repr

def FindError.Error : FindError → String
  | .ErrNoMatch => "no key for given address or file"
  | .AmbiguousAddrError _ Matches =>
    "multiple keys match address (" ++ String.intercalate ", " (Matches.map Account.File) ++ ")"

/-- An addrCache: its key directory and the two indexes. -/
structure addrCache where
  keydir : String
  all : List Account
  byAddr : Address → List Account

/-- sort.Sort on accountsByFile: some permutation sorted by file, in an order
among the accounts of one file that is the sort's own. -/
structure SortByFile where
  sort : List Account → List Account
  perm : ∀ l, (sort l).Perm l
  sorted : ∀ l, (sort l).Pairwise (fun a b => a.File ≤ b.File)

/-- One sort by file: merge sort. -/
def SortByFile.mergeSort : SortByFile where
  sort l := l.mergeSort fun a b => decide (a.File ≤ b.File)
  perm l := List.mergeSort_perm l _
  sorted l := by
    have hsorted := @List.pairwise_mergeSort Account (fun a b => decide (a.File ≤ b.File))
      (fun a b c hab hbc => by simp only [decide_eq_true_eq] at hab hbc ⊢; exact hab.trans hbc)
      (fun a b => by simpa using le_total a.File b.File) l
    simpa using hsorted

def newAddrCache (keydir : String) : addrCache := ⟨keydir, [], fun _ => []⟩

namespace addrCache

def accounts (ac : addrCache) : List Account := ac.all

def hasAddress (ac : addrCache) (addr : Address) : Bool := 0 < (ac.byAddr addr).length

/-- The list of an address with one more account at its end:
append(ac.byAddr[addr], a). -/
def appendByAddr (byAddr : Address → List Account) (a : Account) : Address → List Account :=
  Function.update byAddr a.Address (byAddr a.Address ++ [a])

def add (ac : addrCache) (newAccount : Account) : addrCache :=
  let i := search ac.all.length fun i => ac.all[i]?.all fun a => newAccount.File ≤ a.File
  if ac.all[i]? = some newAccount then ac
  else
    { ac with
      all := ac.all.insertIdx i newAccount
      byAddr := appendByAddr ac.byAddr newAccount }

/-- removeAccount: the slice without the first copy of `elem`. -/
def removeAccount (slice : List Account) (elem : Account) : List Account := slice.erase elem

def delete (ac : addrCache) (removed : Account) : addrCache :=
  -- an address whose list is left empty leaves the map, where it reads as
  -- the empty list again
  { ac with
    all := removeAccount ac.all removed
    byAddr := Function.update ac.byAddr removed.Address (removeAccount (ac.byAddr removed.Address) removed) }

/-- reload, given the accounts the scan found. `ac.all` and `accounts` share
one array, so the loop that fills byAddr reads them sorted. -/
def reload (sortByFile : SortByFile) (ac : addrCache) (accounts : List Account) : addrCache :=
  let all := sortByFile.sort accounts
  { ac with all := all, byAddr := all.foldl appendByAddr fun _ => [] }

/-- The switch that ends find: the only candidate, or the error for none or
for many. -/
def findByCount (a : Account) (candidates : List Account) : Except FindError Account :=
  match candidates with
  | [m] => .ok m
  | [] => .error .ErrNoMatch
  | _ => .error (.AmbiguousAddrError a.Address candidates)

/-- The body of find once its candidates (Go's `matches`) are chosen: the one
with the file asked for, else the only candidate, for a request with an
address. -/
def findAmong (Join : String → String → String) (Separator : Char) (keydir : String) (a : Account)
    (candidates : List Account) : Except FindError Account :=
  if a.File = "" then findByCount a candidates
  else
    -- a base name is completed to a path in the key directory
    let file := if Separator ∈ a.File.toList then a.File else Join keydir a.File
    match candidates.find? (fun m => m.File = file) with
    | some m => .ok m
    | none => if a.Address = zeroAddress then .error .ErrNoMatch else findByCount a candidates

def find (Join : String → String → String) (Separator : Char) (ac : addrCache) (a : Account) :
    Except FindError Account :=
  -- the search is limited to the address's accounts when an address is given
  let candidates := if a.Address ≠ zeroAddress then ac.byAddr a.Address else ac.all
  findAmong Join Separator ac.keydir a candidates

/-! ### The index the code keeps -/

/-- `all` sorted by file, as `add` needs it for its search, and under every
address the accounts of `all` with that address. -/
structure Valid (ac : addrCache) : Prop where
  sorted : ac.all.Pairwise (fun a b => a.File ≤ b.File)
  byAddr_perm : ∀ addr, (ac.byAddr addr).Perm (ac.all.filter fun a => a.Address = addr)

theorem valid_newAddrCache (keydir : String) : (newAddrCache keydir).Valid :=
  ⟨List.Pairwise.nil, fun _ => List.Perm.refl _⟩

theorem appendByAddr_apply (byAddr : Address → List Account) (a : Account) (addr : Address) :
    appendByAddr byAddr a addr = byAddr addr ++ [a].filter fun b => b.Address = addr := by
  rw [appendByAddr, Function.update_apply]
  by_cases h : a.Address = addr
  · rw [if_pos h.symm, List.filter_singleton, h]
    simp
  · rw [if_neg (Ne.symm h), List.filter_singleton]
    simp [h]

/-- The loop of reload: byAddr gets the accounts of each address in the
order of the list. -/
theorem foldl_appendByAddr (l : List Account) (init : Address → List Account) (addr : Address) :
    l.foldl appendByAddr init addr = init addr ++ l.filter fun b => b.Address = addr := by
  induction l generalizing init with
  | nil => simp
  | cons a l ih =>
    rw [List.foldl_cons, ih, appendByAddr_apply, List.append_assoc, ← List.filter_append]
    rfl

variable {ac : addrCache}

theorem Valid.add (h : ac.Valid) (newAccount : Account) : (ac.add newAccount).Valid := by
  have hle := (search_spec (upward_of_sorted Account.File h.sorted newAccount.File)).1
  unfold addrCache.add
  dsimp only
  split
  · exact h
  · -- the account goes in at the search index, and at the end of its address's list
    refine ⟨pairwise_insertIdx_search Account.File h.sorted newAccount, fun addr => ?_⟩
    have hperm := (List.perm_insertIdx newAccount ac.all hle).trans (List.perm_append_singleton _ _).symm
    dsimp only
    rw [appendByAddr_apply]
    refine ((h.byAddr_perm addr).append_right _).trans ?_
    rw [← List.filter_append]
    exact (hperm.filter _).symm

theorem Valid.delete (h : ac.Valid) (removed : Account) : (ac.delete removed).Valid := by
  refine ⟨h.sorted.erase removed, fun addr => ?_⟩
  dsimp only [addrCache.delete, removeAccount]
  rw [Function.update_apply, ← List.erase_filter]
  split
  · -- the account leaves its address's list as it leaves `all`
    next heq =>
    subst heq
    exact (h.byAddr_perm _).erase removed
  · -- another address's accounts never held it
    next hne =>
    have hout : removed ∉ ac.all.filter fun a => a.Address = addr := fun hmem =>
      hne (of_decide_eq_true (List.mem_filter.mp hmem).2).symm
    rw [List.erase_of_not_mem hout]
    exact h.byAddr_perm addr

/-- reload makes the index afresh, whatever the cache held before. -/
theorem valid_reload (sortByFile : SortByFile) (accounts : List Account) :
    (ac.reload sortByFile accounts).Valid := by
  refine ⟨sortByFile.sorted accounts, fun addr => ?_⟩
  dsimp only [addrCache.reload]
  rw [foldl_appendByAddr, List.nil_append]

/-- Adding an account the cache holds changes nothing when no other cached
account has its file: the search lands on the account itself. -/
theorem Valid.add_of_mem (h : ac.Valid) {newAccount : Account} (hmem : newAccount ∈ ac.all)
    (hfile : ∀ b ∈ ac.all, b.File = newAccount.File → b = newAccount) : ac.add newAccount = ac := by
  obtain ⟨hle, hbelow, habove⟩ := search_spec (upward_of_sorted Account.File h.sorted newAccount.File)
  obtain ⟨j, hj, hget⟩ := List.getElem_of_mem hmem
  set i := search ac.all.length fun i => ac.all[i]?.all fun a => newAccount.File ≤ a.File
  -- the search stops at or before the account, at a file no greater than its own
  have hij : i ≤ j := by
    by_contra hji
    have hfalse := hbelow j (by omega)
    rw [List.getElem?_eq_getElem hj, hget, Option.all_some, decide_eq_false_iff_not] at hfalse
    exact hfalse le_rfl
  have hi : i < ac.all.length := by omega
  have hge := habove i le_rfl hi
  rw [List.getElem?_eq_getElem hi, Option.all_some, decide_eq_true_eq] at hge
  have hle' : ac.all[i].File ≤ newAccount.File := by
    rcases Nat.lt_or_eq_of_le hij with hlt | rfl
    · exact hget ▸ List.pairwise_iff_getElem.mp h.sorted i j hi hj hlt
    · exact hget ▸ le_rfl
  have hat : ac.all[i] = newAccount := hfile _ (List.getElem_mem hi) (le_antisymm hle' hge)
  unfold addrCache.add
  dsimp only
  rw [if_pos (by rw [List.getElem?_eq_getElem hi, hat])]

/-- Without the condition on files, add can hold an account twice: in a
cache with two accounts of one file, adding the later one again puts a
second copy before the first. -/
theorem add_twice_of_shared_file :
    let a : Account := ⟨Vector.replicate 20 1, "k"⟩
    let b : Account := ⟨Vector.replicate 20 2, "k"⟩
    ((((newAddrCache "d").add a).add b).add a).all = [a, b, a] := by
  simp [addrCache.add, newAddrCache, search, searchLoop]

/-! ### Runs -/

/-- The operations that change the cache. -/
inductive Op
  | add (a : Account)
  | delete (a : Account)
  | reload (accounts : List Account)

def apply (sortByFile : SortByFile) (ac : addrCache) : Op → addrCache
  | .add a => ac.add a
  | .delete a => ac.delete a
  | .reload accounts => ac.reload sortByFile accounts

variable (sortByFile : SortByFile)

theorem Valid.apply (h : ac.Valid) (op : Op) : (ac.apply sortByFile op).Valid := by
  cases op with
  | add a => exact h.add a
  | delete a => exact h.delete a
  | reload accounts => exact valid_reload sortByFile accounts

theorem Valid.run (h : ac.Valid) (ops : List Op) : (ops.foldl (addrCache.apply sortByFile) ac).Valid := by
  induction ops generalizing ac with
  | nil => exact h
  | cons op ops ih => exact ih (h.apply sortByFile op)

/-- Every run of add, delete and reload from newAddrCache keeps `all` sorted
by file and lists under each address the accounts of `all` with it. -/
theorem newAddrCache_run_Valid (keydir : String) (ops : List Op) :
    (ops.foldl (apply sortByFile) (newAddrCache keydir)).Valid :=
  (valid_newAddrCache keydir).run sortByFile ops

/-- In a cache a run from newAddrCache reaches, adding an account it holds
changes nothing when no other cached account has that account's file. -/
theorem run_add_of_mem (keydir : String) (ops : List Op) {newAccount : Account}
    (hmem : newAccount ∈ (ops.foldl (addrCache.apply sortByFile) (newAddrCache keydir)).all)
    (hfile : ∀ b ∈ (ops.foldl (addrCache.apply sortByFile) (newAddrCache keydir)).all,
      b.File = newAccount.File → b = newAccount) :
    (ops.foldl (addrCache.apply sortByFile) (newAddrCache keydir)).add newAccount =
      ops.foldl (addrCache.apply sortByFile) (newAddrCache keydir) :=
  ((valid_newAddrCache keydir).run sortByFile ops).add_of_mem hmem hfile

theorem run_add_of_mem_again :
    let a : Account := ⟨Vector.replicate 20 1, "k"⟩
    ([Op.add a].foldl (addrCache.apply SortByFile.mergeSort) (newAddrCache "d")).add a =
      [Op.add a].foldl (addrCache.apply SortByFile.mergeSort) (newAddrCache "d") := by
  intro a
  exact run_add_of_mem SortByFile.mergeSort "d" [.add a]
    (by simp [a, addrCache.apply, addrCache.add, newAddrCache, search, searchLoop])
    (by simp [a, addrCache.apply, addrCache.add, newAddrCache, search, searchLoop])

/-! ### Lookups -/

/-- Two answers of find that differ at most in the order in which an
AmbiguousAddrError lists its matches. -/
def SameAnswer : Except FindError Account → Except FindError Account → Prop
  | .ok m, .ok m' => m = m'
  | .error .ErrNoMatch, .error .ErrNoMatch => True
  | .error (.AmbiguousAddrError addr l), .error (.AmbiguousAddrError addr' l') => addr = addr' ∧ l.Perm l'
  | _, _ => False

theorem SameAnswer.refl (r : Except FindError Account) : SameAnswer r r := by
  rcases r with (_ | ⟨addr, l⟩) | m
  · trivial
  · exact ⟨rfl, List.Perm.refl l⟩
  · rfl

theorem findByCount_perm (a : Account) {l l' : List Account} (hp : l.Perm l') :
    SameAnswer (findByCount a l) (findByCount a l') := by
  have hlen := hp.length_eq
  rcases l with _ | ⟨m, _ | ⟨m₂, r⟩⟩ <;> rcases l' with _ | ⟨m', _ | ⟨m₂', r'⟩⟩ <;> simp at hlen
  · trivial
  · rw [List.singleton_perm_singleton.mp hp]
    rfl
  · exact ⟨rfl, hp⟩

/-- Candidates that all have the address asked for give the same answer in
any order: the one with the file asked for is the account of that address
and that file. -/
theorem findAmong_perm (Join : String → String → String) (Separator : Char) (keydir : String)
    (a : Account) {l l' : List Account} (hp : l.Perm l') (haddr : ∀ m ∈ l, m.Address = a.Address) :
    SameAnswer (findAmong Join Separator keydir a l) (findAmong Join Separator keydir a l') := by
  unfold findAmong
  split
  · exact findByCount_perm a hp
  · dsimp only
    generalize (if Separator ∈ a.File.toList then a.File else Join keydir a.File) = file
    rcases hf : l.find? (fun m => m.File = file) with _ | m
    · -- no candidate has the file, in either order
      have hf' : l'.find? (fun m => m.File = file) = none := by
        rw [List.find?_eq_none] at hf ⊢
        exact fun x hx => hf x (hp.mem_iff.mpr hx)
      rw [hf, hf']
      dsimp only
      split
      · trivial
      · exact findByCount_perm a hp
    · have hm := List.mem_of_find?_eq_some hf
      have hmfile : m.File = file := by simpa using List.find?_some hf
      obtain ⟨m', hf'⟩ : ∃ m', l'.find? (fun m => m.File = file) = some m' :=
        Option.isSome_iff_exists.mp (List.find?_isSome.mpr ⟨m, hp.subset hm, by simpa using hmfile⟩)
      have hm' := List.mem_of_find?_eq_some hf'
      have hmfile' : m'.File = file := by simpa using List.find?_some hf'
      rw [hf, hf']
      show m = m'
      exact Account.ext ((haddr m hm).trans (haddr m' (hp.symm.subset hm')).symm) (hmfile.trans hmfile'.symm)

section Queries

variable (h : ac.Valid)
include h

theorem Valid.hasAddress_eq (addr : Address) :
    ac.hasAddress addr = ac.all.any fun m => m.Address = addr := by
  rw [hasAddress, (h.byAddr_perm addr).length_eq, ← List.countP_eq_length_filter]
  apply Bool.eq_iff_iff.mpr
  rw [decide_eq_true_iff, List.countP_pos_iff, List.any_eq_true]

/-- find with an address looks in byAddr; in a valid cache that answers as
the accounts of `all` with the address do. -/
theorem Valid.find_same (Join : String → String → String) (Separator : Char) (a : Account) :
    SameAnswer (ac.find Join Separator a)
      (findAmong Join Separator ac.keydir a
        (if a.Address ≠ zeroAddress then ac.all.filter (fun m => m.Address = a.Address) else ac.all)) := by
  unfold find
  dsimp only
  split
  · apply findAmong_perm Join Separator ac.keydir a (h.byAddr_perm a.Address)
    intro m hm
    exact of_decide_eq_true (List.mem_filter.mp ((h.byAddr_perm a.Address).subset hm)).2
  · exact SameAnswer.refl _

end Queries

/-- After any run from newAddrCache, hasAddress says whether the cache holds
an account of the address, and find answers as it would among the accounts
of `all`, those of the address when one is asked for, up to the order of the
matches an AmbiguousAddrError lists. -/
theorem run_find_hasAddress (keydir : String) (ops : List Op) (Join : String → String → String)
    (Separator : Char) :
    let ac := ops.foldl (addrCache.apply sortByFile) (newAddrCache keydir)
    (∀ addr, ac.hasAddress addr = ac.all.any fun m => m.Address = addr) ∧
      ∀ a, SameAnswer (ac.find Join Separator a)
        (findAmong Join Separator ac.keydir a
          (if a.Address ≠ zeroAddress then ac.all.filter (fun m => m.Address = a.Address) else ac.all)) := by
  intro ac
  have h : ac.Valid := (valid_newAddrCache keydir).run sortByFile ops
  exact ⟨h.hasAddress_eq, h.find_same Join Separator⟩

end addrCache

end GoEthereum.Accounts
