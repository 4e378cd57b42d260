import Mathlib

/-!
The manifest trie of swarm's api (`swarm/api/manifest.go`): a trie of paths
with one slot for each first byte of a path and slot 256 for the empty path.
Where paths share a prefix, the trie splits them into a subtrie under an entry
of the manifest content type whose path is the common prefix. The two
`subtrie.addEntry` calls that build a split each find their slot empty,
since the two paths differ right after the common prefix: `addEntry` puts
each entry in its slot (`setSlot`).
-/

namespace GoEthereum.Swarm

def manifestType : String := "application/bzz-manifest+json"

/-- `manifestTrieEntry`; `subtrie` holds the slots of its trie when it is in
memory. -/
structure ManifestTrieEntry where
  Path : List UInt8
  Hash : String
  ContentType : String
  Status : Int
  subtrie : Option (List (Option ManifestTrieEntry))

/-- The `entries` of a `manifestTrie`. -/
abbrev ManifestTrie := List (Option ManifestTrieEntry)

/-- A new trie, all slots nil. -/
def emptyTrie : ManifestTrie := List.replicate 257 none

/-- The slot of a path: its first byte, 256 for the empty path. -/
def slotOf : List UInt8 → Nat
  | [] => 256
  | b :: _ => b.toNat

/-- `self.entries[slot] = entry`. -/
def setSlot (self : ManifestTrie) (entry : ManifestTrieEntry) : ManifestTrie :=
  self.set (slotOf entry.Path) (some entry)

section Slots

variable {t : ManifestTrie} {i j : Nat}

theorem getD_replicate_none (n i : Nat) :
    (List.replicate n (none : Option ManifestTrieEntry)).getD i none = none := by
  rw [List.getD_eq_getElem?_getD, List.getElem?_replicate]
  split <;> rfl

@[simp] theorem getD_emptyTrie (i : Nat) : emptyTrie.getD i none = none :=
  getD_replicate_none 257 i

@[simp] theorem length_emptyTrie : emptyTrie.length = 257 := List.length_replicate

theorem getD_set_self (hi : i < t.length) (o : Option ManifestTrieEntry) :
    (t.set i o).getD i none = o := by
  simp [List.getD_eq_getElem?_getD, hi]

end Slots

/-- The loop over `cpl`: the length of the common prefix of two paths. -/
def commonPrefixLen : List UInt8 → List UInt8 → Nat
  | a :: as, b :: bs => if a = b then commonPrefixLen as bs + 1 else 0
  | _, _ => 0

theorem commonPrefixLen_append (c a b : List UInt8) :
    commonPrefixLen (c ++ a) (c ++ b) = c.length + commonPrefixLen a b := by
  induction c with
  | nil => simp
  | cons x c ih =>
    simp only [List.cons_append, commonPrefixLen, if_true, ih, List.length_cons]
    omega

theorem commonPrefixLen_cons_ne {x y : UInt8} (h : x ≠ y) (as bs : List UInt8) :
    commonPrefixLen (x :: as) (y :: bs) = 0 := by
  simp [commonPrefixLen, h]

/-- A subtrie is smaller than the trie whose slot holds it. -/
theorem sizeOf_subtrie_lt {t : ManifestTrie} {i : Nat} {e : ManifestTrieEntry} {sub : ManifestTrie}
    (h : t.getD i none = some e) (hs : e.subtrie = some sub) : sizeOf sub < sizeOf t := by
  have hmem : some e ∈ t := by
    rw [List.getD_eq_getElem?_getD] at h
    cases hi : t[i]? with
    | none => simp [hi] at h
    | some o =>
      simp only [hi, Option.getD_some] at h
      exact List.mem_of_getElem? (h ▸ hi)
  have hlt := List.sizeOf_lt_of_mem hmem
  obtain ⟨p, hash, ct, status, s⟩ := e
  cases hs
  simp only [Option.some.sizeOf_spec, ManifestTrieEntry.mk.sizeOf_spec] at hlt
  omega

namespace ManifestTrie

set_option linter.unusedVariables false in
def addEntry (self : ManifestTrie) (entry : ManifestTrieEntry) : ManifestTrie :=
  match entry.Path with
  | [] => self.set 256 (some entry)
  | b :: _ =>
    match hslot : self.getD b.toNat none with
    | none => self.set b.toNat (some entry)
    | some oldentry =>
      if oldentry.Path = entry.Path then self.set b.toNat (some entry)
      else
        let cpl := commonPrefixLen entry.Path oldentry.Path
        if oldentry.ContentType = manifestType ∧ cpl = oldentry.Path.length then
          match hsub : oldentry.subtrie with
          | none => self
          | some sub =>
            let sub := addEntry sub { entry with Path := entry.Path.drop cpl }
            self.set b.toNat (some { oldentry with Hash := "", subtrie := some sub })
        else
          let commonPrefix := entry.Path.take cpl
          let subtrie := setSlot (setSlot emptyTrie { entry with Path := entry.Path.drop cpl })
            { oldentry with Path := oldentry.Path.drop cpl }
          self.set b.toNat
            (some { Path := commonPrefix, Hash := "", ContentType := manifestType, Status := 0,
                    subtrie := some subtrie })
termination_by sizeOf self
decreasing_by exact sizeOf_subtrie_lt hslot hsub

section AddSpecs

variable {self : ManifestTrie} {entry oldentry : ManifestTrieEntry} {b : UInt8} {rest : List UInt8}

/-- `addEntry` into an empty slot sets it. -/
theorem addEntry_of_none (hp : entry.Path = b :: rest) (hslot : self.getD b.toNat none = none) :
    self.addEntry entry = self.set b.toNat (some entry) := by
  rw [addEntry]
  split
  · simp_all
  · rename_i b' rest' hp'
    rw [hp] at hp'
    obtain ⟨rfl, rfl⟩ := List.cons.inj hp'
    split
    · rfl
    · simp_all

/-- `addEntry` of the path of the slot's entry replaces that entry, whatever
it is, a split of other paths included. -/
theorem addEntry_of_same (hp : entry.Path = b :: rest)
    (hslot : self.getD b.toNat none = some oldentry) (hsame : oldentry.Path = entry.Path) :
    self.addEntry entry = self.set b.toNat (some entry) := by
  rw [addEntry]
  split
  · simp_all
  · rename_i b' rest' hp'
    rw [hp] at hp'
    obtain ⟨rfl, rfl⟩ := List.cons.inj hp'
    split
    · simp_all
    · rename_i o hslot'
      rw [hslot] at hslot'
      cases hslot'
      rw [if_pos hsame]

/-- `addEntry` into a slot whose entry is no subtrie splits the two at their
common prefix. -/
theorem addEntry_of_split (hp : entry.Path = b :: rest)
    (hslot : self.getD b.toNat none = some oldentry)
    (hne : oldentry.Path ≠ entry.Path) (hleaf : oldentry.ContentType ≠ manifestType) :
    self.addEntry entry = self.set b.toNat
      (some { Path := entry.Path.take (commonPrefixLen entry.Path oldentry.Path), Hash := "",
              ContentType := manifestType, Status := 0,
              subtrie := some (setSlot
                (setSlot emptyTrie
                  { entry with Path := entry.Path.drop (commonPrefixLen entry.Path oldentry.Path) })
                { oldentry with
                  Path := oldentry.Path.drop (commonPrefixLen entry.Path oldentry.Path) }) }) := by
  rw [addEntry]
  split
  · simp_all
  · rename_i b' rest' hp'
    rw [hp] at hp'
    obtain ⟨rfl, rfl⟩ := List.cons.inj hp'
    split
    · simp_all
    · rename_i o hslot'
      rw [hslot] at hslot'
      cases hslot'
      rw [if_neg hne, if_neg (fun h => hleaf h.1)]

end AddSpecs

/-- `getCountLast`: the number of entries and the last one. -/
def getCountLast (self : ManifestTrie) : Nat × Option ManifestTrieEntry :=
  self.foldl (fun acc e => match e with
    | some e => (acc.1 + 1, some e)
    | none => acc) (0, none)

set_option linter.unusedVariables false in
def deleteEntry (self : ManifestTrie) (path : List UInt8) : ManifestTrie :=
  match path with
  | [] => self.set 256 none
  | b :: _ =>
    match hslot : self.getD b.toNat none with
    | none => self
    | some entry =>
      if entry.Path = path then self.set b.toNat none
      else
        let epl := entry.Path.length
        if entry.ContentType = manifestType ∧ epl ≤ path.length ∧ path.take epl = entry.Path then
          match hsub : entry.subtrie with
          | none => self
          | some sub =>
            let sub := deleteEntry sub (path.drop epl)
            -- a subtrie of fewer than two entries is replaced by its entry
            match getCountLast sub with
            | (cnt, lastentry) =>
              if cnt < 2 then
                self.set b.toNat (lastentry.map fun l => { l with Path := entry.Path ++ l.Path })
              else self.set b.toNat (some { entry with Hash := "", subtrie := some sub })
        else self
termination_by sizeOf self
decreasing_by exact sizeOf_subtrie_lt hslot hsub

/-- `deleteEntry` of the path of the slot's entry clears the slot, a split of
other paths included. -/
theorem deleteEntry_of_same {self : ManifestTrie} {path rest : List UInt8} {b : UInt8}
    {e : ManifestTrieEntry} (hp : path = b :: rest) (hslot : self.getD b.toNat none = some e)
    (hsame : e.Path = path) : self.deleteEntry path = self.set b.toNat none := by
  subst hp
  rw [deleteEntry]
  split
  · rename_i hslot'
    rw [hslot] at hslot'
    cases hslot'
  · rename_i o hslot'
    rw [hslot] at hslot'
    cases hslot'
    rw [if_pos hsame]

/-- Whether the listing's loop visits slot `i`: all slots for the empty
prefix, else the slot of its first byte. -/
def inRange (pfx : List UInt8) (i : Nat) : Bool :=
  match pfx with
  | [] => i ≤ 256
  | b :: _ => i = b.toNat

mutual

/-- The loop of `listWithPrefixInt` over the slots from `i` on. -/
def listSlots (pfx rp : List UInt8) (i : Nat) :
    List (Option ManifestTrieEntry) → Except String (List (ManifestTrieEntry × List UInt8))
  | [] => .ok []
  | none :: rest => listSlots pfx rp (i + 1) rest
  | some entry :: rest => do
    let here ← if inRange pfx i then listEntry pfx rp entry else pure []
    let later ← listSlots pfx rp (i + 1) rest
    pure (here ++ later)

/-- One entry of the loop: a subtrie whose path agrees with the prefix is
listed under its path, any other entry is reported if the prefix is a prefix
of its path. -/
def listEntry (pfx rp : List UInt8) :
    ManifestTrieEntry → Except String (List (ManifestTrieEntry × List UInt8))
  | entry@⟨path, _, contentType, _, subtrie⟩ =>
    let plen := pfx.length
    let epl := path.length
    if contentType = manifestType then
      let l := min plen epl
      if pfx.take l = path.take l then
        match subtrie with
        | none => .error "Manifest not Found"
        | some sub => listSlots (pfx.drop l) (rp ++ path.drop l) 0 sub
      else .ok []
    else if epl ≥ plen ∧ pfx = path.take plen then .ok [(entry, rp ++ path.drop plen)]
    else .ok []

end

/-- An entry that is no subtrie is listed under its whole path for the empty
prefix. -/
theorem listEntry_of_leaf (rp : List UInt8) {e : ManifestTrieEntry}
    (hleaf : e.ContentType ≠ manifestType) : listEntry [] rp e = .ok [(e, rp ++ e.Path)] := by
  obtain ⟨path, hash, ct, status, sub⟩ := e
  rw [listEntry]
  simp only at hleaf
  simp [hleaf]

theorem listSlots_replicate (pfx rp : List UInt8) (i n : Nat) :
    listSlots pfx rp i (List.replicate n none) = .ok [] := by
  induction n generalizing i with
  | zero => simp [listSlots]
  | succ n ih => simp [List.replicate_succ, listSlots, ih]

/-- The listing of a trie whose only entry is one that is no subtrie. -/
theorem listSlots_single (rp : List UInt8) (i n k : Nat) (hk : k < n) (hin : i + k ≤ 256)
    {e : ManifestTrieEntry} (hleaf : e.ContentType ≠ manifestType) :
    listSlots [] rp i ((List.replicate n none).set k (some e)) = .ok [(e, rp ++ e.Path)] := by
  induction n generalizing i k with
  | zero => omega
  | succ n ih =>
    cases k with
    | zero =>
      have hr : inRange [] i = true := by simp [inRange]; omega
      rw [List.replicate_succ, List.set_cons_zero, listSlots, if_pos hr, listEntry_of_leaf rp hleaf,
        listSlots_replicate]
      rfl
    | succ k =>
      rw [List.replicate_succ, List.set_cons_succ, listSlots]
      exact ih (i + 1) k (by omega) (by omega)

def listWithPrefixInt (self : ManifestTrie) (pfx rp : List UInt8) :
    Except String (List (ManifestTrieEntry × List UInt8)) :=
  listSlots pfx rp 0 self

def listWithPrefix (self : ManifestTrie) (pfx : List UInt8) :
    Except String (List (ManifestTrieEntry × List UInt8)) :=
  self.listWithPrefixInt pfx []

set_option linter.unusedVariables false in
def findPrefixOf (self : ManifestTrie) (path : List UInt8) : Option ManifestTrieEntry × Nat :=
  match path with
  | [] => (self.getD 256 none, 0)
  | b :: _ =>
    match hslot : self.getD b.toNat none with
    | none => (self.getD 256 none, 0)
    | some entry =>
      let epl := entry.Path.length
      if epl ≤ path.length ∧ path.take epl = entry.Path then
        if entry.ContentType = manifestType then
          match hsub : entry.subtrie with
          | none => (none, 0)
          | some sub =>
            match findPrefixOf sub (path.drop epl) with
            | (some e, pos) => (some e, pos + epl)
            | (none, pos) => (none, pos)
        else (some entry, epl)
      else (none, 0)
termination_by sizeOf self
decreasing_by exact sizeOf_subtrie_lt hslot hsub

/-- `findPrefixOf` stops at an entry that is no subtrie and whose path is a
prefix of the one sought. -/
theorem findPrefixOf_of_leaf {self : ManifestTrie} {path rest : List UInt8} {b : UInt8}
    {e : ManifestTrieEntry} (hp : path = b :: rest) (hslot : self.getD b.toNat none = some e)
    (hpre : e.Path.length ≤ path.length ∧ path.take e.Path.length = e.Path)
    (hleaf : e.ContentType ≠ manifestType) :
    self.findPrefixOf path = (some e, e.Path.length) := by
  subst hp
  rw [findPrefixOf]
  split
  · rename_i hslot'
    rw [hslot] at hslot'
    cases hslot'
  · rename_i o hslot'
    rw [hslot] at hslot'
    cases hslot'
    rw [if_pos hpre, if_neg hleaf]

end ManifestTrie

/-- A change to a manifest. -/
inductive ManifestOp where
  | add (entry : ManifestTrieEntry)
  | delete (path : List UInt8)

def ManifestOp.apply (t : ManifestTrie) : ManifestOp → ManifestTrie
  | .add entry => t.addEntry entry
  | .delete path => t.deleteEntry path

/-- What a manifest stands for: the entry of each path, as the changes left
it; an add overwrites, a delete removes. -/
def ManifestOp.applyMap (m : List UInt8 → Option ManifestTrieEntry) :
    ManifestOp → List UInt8 → Option ManifestTrieEntry
  | .add entry => Function.update m entry.Path (some entry)
  | .delete path => Function.update m path none

/-- The trie the changes build from a new one. -/
def manifestOfOps (ops : List ManifestOp) : ManifestTrie := ops.foldl ManifestOp.apply emptyTrie

/-- The map the changes stand for. -/
def mapOfOps (ops : List ManifestOp) : List UInt8 → Option ManifestTrieEntry :=
  ops.foldl ManifestOp.applyMap (fun _ => none)

/-- Adding a path equal to the common prefix at which two earlier paths were
split replaces the split: the two paths are gone from the trie though the map
of the changes still holds them, and a lookup of either finds the new entry. -/
theorem addEntry_overwrites_split (c : List UInt8) (hc : c ≠ []) (x y : UInt8) (hxy : x ≠ y)
    (r₁ r₂ : List UInt8) (ea eb ec : ManifestTrieEntry) (ha : ea.Path = c ++ x :: r₁)
    (hb : eb.Path = c ++ y :: r₂) (hcp : ec.Path = c) (hta : ea.ContentType ≠ manifestType)
    (htc : ec.ContentType ≠ manifestType) :
    let ops := [ManifestOp.add ea, .add eb, .add ec]
    mapOfOps ops ea.Path = some ea ∧ mapOfOps ops eb.Path = some eb ∧ mapOfOps ops c = some ec ∧
      (manifestOfOps ops).listWithPrefix [] = .ok [(ec, c)] ∧
      (manifestOfOps ops).findPrefixOf ea.Path = (some ec, c.length) := by
  obtain ⟨p, ps, rfl⟩ := List.exists_cons_of_ne_nil hc
  have hp' : p.toNat < 257 := by
    have := UInt8.toNat_lt p
    omega
  have hp : p.toNat < emptyTrie.length := by
    rw [length_emptyTrie]
    exact hp'
  have hab : ea.Path ≠ eb.Path := by simp [ha, hb, hxy]
  have hac : ea.Path ≠ p :: ps := by simp [ha]
  have hbc : eb.Path ≠ p :: ps := by simp [hb]
  have hcpl : commonPrefixLen eb.Path ea.Path = (p :: ps).length := by
    rw [ha, hb, commonPrefixLen_append, commonPrefixLen_cons_ne (Ne.symm hxy)]
    rfl
  have h₁ : emptyTrie.addEntry ea = emptyTrie.set p.toNat (some ea) :=
    ManifestTrie.addEntry_of_none (ha.trans (List.cons_append ..)) (getD_emptyTrie _)
  have hslot₁ : (emptyTrie.set p.toNat (some ea)).getD p.toNat none = some ea :=
    getD_set_self hp _
  have h₂ := ManifestTrie.addEntry_of_split (hb.trans (List.cons_append ..)) hslot₁ hab hta
  rw [hcpl] at h₂
  have hslot₂ := @getD_set_self (emptyTrie.set p.toNat (some ea)) p.toNat
    (by rw [List.length_set]; exact hp)
    (some { Path := eb.Path.take (p :: ps).length, Hash := "", ContentType := manifestType,
            Status := 0,
            subtrie := some (setSlot (setSlot emptyTrie { eb with Path := eb.Path.drop (p :: ps).length })
              { ea with Path := ea.Path.drop (p :: ps).length }) })
  have hsplit : eb.Path.take (p :: ps).length = ec.Path := by
    rw [hb, hcp, List.take_left']
    rfl
  have h₃ := ManifestTrie.addEntry_of_same (hcp.trans rfl) hslot₂ hsplit
  have htrie : manifestOfOps [.add ea, .add eb, .add ec] = emptyTrie.set p.toNat (some ec) := by
    show ((emptyTrie.addEntry ea).addEntry eb).addEntry ec = _
    rw [h₁, h₂, h₃, List.set_set, List.set_set]
  refine ⟨?_, ?_, ?_, ?_, ?_⟩
  · simp [mapOfOps, ManifestOp.applyMap, hab, hac, hcp]
  · simp [mapOfOps, ManifestOp.applyMap, hbc, hcp]
  · simp [mapOfOps, ManifestOp.applyMap, hcp]
  · rw [htrie, ManifestTrie.listWithPrefix, ManifestTrie.listWithPrefixInt, emptyTrie,
      ManifestTrie.listSlots_single [] 0 257 p.toNat hp' (by omega) htc, hcp]
    rfl
  · rw [htrie]
    have hpre : ec.Path.length ≤ ea.Path.length ∧ ea.Path.take ec.Path.length = ec.Path := by
      rw [ha, hcp]
      simp
    rw [ManifestTrie.findPrefixOf_of_leaf (ha.trans (List.cons_append ..)) (getD_set_self hp _)
      hpre htc, hcp]

theorem addEntry_overwrites_split_abAcA :
    let ea : ManifestTrieEntry := ⟨[97, 98], "", "text/plain", 0, none⟩
    let eb : ManifestTrieEntry := ⟨[97, 99], "", "text/plain", 0, none⟩
    let ec : ManifestTrieEntry := ⟨[97], "", "text/plain", 0, none⟩
    let ops := [ManifestOp.add ea, .add eb, .add ec]
    ([97] : List UInt8) ≠ [] ∧ (98 : UInt8) ≠ 99 ∧ ea.ContentType ≠ manifestType ∧
      ec.ContentType ≠ manifestType ∧
      mapOfOps ops ea.Path = some ea ∧ mapOfOps ops eb.Path = some eb ∧ mapOfOps ops [97] = some ec ∧
      (manifestOfOps ops).listWithPrefix [] = .ok [(ec, [97])] ∧
      (manifestOfOps ops).findPrefixOf ea.Path = (some ec, 1) :=
  ⟨by decide, by decide, by decide, by decide,
    addEntry_overwrites_split [97] (by decide) 98 99 (by decide) [] [] _ _ _ rfl rfl rfl
      (by decide) (by decide)⟩

end GoEthereum.Swarm
