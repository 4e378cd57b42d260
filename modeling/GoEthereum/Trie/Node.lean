import GoEthereum.Rlp.Raw
import GoEthereum.Trie.Encoding

/-!
Decoding a trie node from its RLP encoding (trie/node.go), as
TrieSync.Process does with the node data that peers deliver and VerifyProof
with the nodes of a proof. `decodeNode` splits off the node's list and counts
its values: two make a short node (`decodeShort`), seventeen a full node
(`decodeFull`, whose loop over the sixteen children is `decodeChildren`). A
child or the value of a short node is a reference (`decodeRef`): the empty
string, a 32-byte hash, or a node embedded in place, which `decodeNode`
decodes in turn. The functions are measured by the length of their input,
four to a byte, with a level for the calls that pass their input on.
-/

namespace GoEthereum.Trie

/-- nodeFlag: the cached hash (empty for none), the cache generation and
whether the node is dirty. -/
structure NodeFlag where
  hash : List UInt8
  gen : UInt16
  dirty : Bool

inductive Node where
  | full (children : List (Option Node)) (flags : NodeFlag)
  | short (key : List UInt8) (val : Option Node) (flags : NodeFlag)
  | hash (h : List UInt8)
  | value (v : List UInt8)

/-- The errors of node decoding, each with the text of node.go that makes
it. -/
inductive DecodeError where
  /-- io.ErrUnexpectedEOF -/
  | unexpectedEOF
  /-- "decode error: %v" -/
  | decode (e : Rlp.Error)
  /-- "invalid number of list elements: %v" -/
  | invalidElems (c : Nat)
  /-- an error of the rlp package, passed on as it is -/
  | rlp (e : Rlp.Error)
  /-- "invalid value node: %v" -/
  | invalidValueNode (e : Rlp.Error)
  /-- "oversized embedded node (size is %d bytes, want size < %d)" -/
  | oversizedEmbedded (size : Nat)
  /-- "invalid RLP string size %d (want 0 or 32)" -/
  | invalidStringSize (size : Nat)
  /-- decodeError: an error with the path of the child it was found in -/
  | decodeError (what : DecodeError) (stack : List String)

/-- How a decoding call ends without a node: an error, or a runtime panic. -/
inductive Fault where
  | error (e : DecodeError)
  | panic (message : String)

def hashLen : Nat := 32

def wrapError (err : DecodeError) (ctx : String) : DecodeError :=
  match err with
  | .decodeError what stack => .decodeError what (stack ++ [ctx])
  | err => .decodeError err [ctx]

/-- `wrapError` on what a call returned: a value and a panic pass as they
are. -/
def wrapResult {α : Type} (r : Except Fault α) (ctx : String) : Except Fault α :=
  match r with
  | .error (.error e) => .error (.error (wrapError e ctx))
  | r => r

mutual

def decodeNode (hash buf : List UInt8) (cachegen : UInt16) : Except Fault Node :=
  if buf.length = 0 then .error (.error .unexpectedEOF)
  else
    match hsplit : Rlp.SplitList buf with
    | .error (.error e) => .error (.error (.decode e))
    | .error (.panic m) => .error (.panic m)
    | .ok (elems, _) =>
      -- the error of CountValues is dropped, and the count is then 0
      let c := match Rlp.CountValues elems with
        | .ok c => Except.ok c
        | .error (.error _) => .ok 0
        | .error (.panic m) => .error (Fault.panic m)
      match c with
      | .error e => .error e
      | .ok c =>
        if c = 2 then wrapResult (decodeShort hash elems cachegen) "short"
        else if c = 17 then wrapResult (decodeFull hash elems cachegen) "full"
        else .error (.error (.invalidElems c))
termination_by 4 * buf.length
decreasing_by
  all_goals
    have := Rlp.SplitList_content_lt hsplit
    omega

/-- decodeShort; the `buf` argument of the source is not read. -/
def decodeShort (hash elems : List UInt8) (cachegen : UInt16) : Except Fault Node :=
  match _hs : Rlp.SplitString elems with
  | .error (.error e) => .error (.error (.rlp e))
  | .error (.panic m) => .error (.panic m)
  | .ok (kbuf, rest) =>
    let flag : NodeFlag := ⟨hash, cachegen, false⟩
    -- compactDecode reads base[0] and decodeShort key[len(key)-1]: both panic on nothing
    match compactDecode kbuf with
    | none => .error (.panic "index out of range")
    | some key =>
      match key.getLast? with
      | none => .error (.panic "index out of range")
      | some last =>
        if last = 16 then
          match Rlp.SplitString rest with
          | .error (.error e) => .error (.error (.invalidValueNode e))
          | .error (.panic m) => .error (.panic m)
          | .ok (val, _) => .ok (.short key (some (.value val)) flag)
        else
          match decodeRef rest cachegen with
          | .error (.error e) => .error (.error (wrapError e "val"))
          | .error (.panic m) => .error (.panic m)
          | .ok (r, _) => .ok (.short key r flag)
termination_by 4 * elems.length + 3
decreasing_by
  have := Rlp.SplitString_rest_lt _hs
  omega

/-- decodeFull; the `buf` argument of the source is not read. -/
def decodeFull (hash elems : List UInt8) (cachegen : UInt16) : Except Fault Node :=
  match decodeChildren elems 0 cachegen with
  | .error e => .error e
  | .ok (children, elems) =>
    match Rlp.SplitString elems with
    | .error (.error e) => .error (.error (.rlp e))
    | .error (.panic m) => .error (.panic m)
    | .ok (val, _) =>
      .ok (.full (children ++ [if val.length > 0 then some (.value val) else none])
        ⟨hash, cachegen, false⟩)
termination_by 4 * elems.length + 3

/-- The loop of decodeFull from child `i` on: the children and what is left
of `elems` after them. -/
def decodeChildren (elems : List UInt8) (i : Nat) (cachegen : UInt16) :
    Except Fault (List (Option Node) × List UInt8) :=
  if i < 16 then
    match decodeRef elems cachegen with
    | .error (.error e) => .error (.error (wrapError e ("[" ++ toString i ++ "]")))
    | .error (.panic m) => .error (.panic m)
    | .ok (cld, ⟨rest, _⟩) =>
      match decodeChildren rest (i + 1) cachegen with
      | .error e => .error e
      | .ok (children, elems) => .ok (cld :: children, elems)
  else .ok ([], elems)
termination_by 4 * elems.length + 2

/-- decodeRef, with the rest of its input, which is shorter than the input. -/
def decodeRef (buf : List UInt8) (cachegen : UInt16) :
    Except Fault (Option Node × {rest : List UInt8 // rest.length < buf.length}) :=
  match hsplit : Rlp.Split buf with
  | .error (.error e) => .error (.error (.rlp e))
  | .error (.panic m) => .error (.panic m)
  | .ok (kind, val, rest) =>
    let rest : {rest : List UInt8 // rest.length < buf.length} := ⟨rest, Rlp.Split_rest_lt hsplit⟩
    if kind = .list then
      -- an embedded node must be smaller than a hash
      let size := buf.length - rest.1.length
      if size > hashLen then .error (.error (.oversizedEmbedded size))
      else
        match decodeNode [] buf cachegen with
        | .error e => .error e
        | .ok n => .ok (some n, rest)
    else if kind = .string ∧ val.length = 0 then .ok (none, rest)
    else if kind = .string ∧ val.length = 32 then .ok (some (.hash val), rest)
    else .error (.error (.invalidStringSize val.length))
termination_by 4 * buf.length + 1

end

/-! ### Keys that make decodeShort panic -/

theorem compactDecode_nil : compactDecode [] = none := rfl

/-- A one-byte key whose flag nibble is 0 unpacks to no nibbles at all. -/
theorem compactDecode_low {b : UInt8} (hb : b < 16) : compactDecode [b] = some [] := by
  have hdiv : b / 16 = 0 := by
    apply UInt8.toNat_inj.mp
    rw [UInt8.toNat_div]
    have : b.toNat < 16 := hb
    simp only [UInt8.reduceToNat]
    omega
  simp [compactDecode, compactHexDecode, byteNibbles, hdiv]

theorem wrapResult_panic {α : Type} (message ctx : String) :
    wrapResult (.error (.panic message) : Except Fault α) ctx = .error (.panic message) := rfl

/-- decodeNode on a list of two values is decodeShort on its content. -/
theorem decodeNode_short {hash buf elems rest : List UInt8} {cachegen : UInt16}
    (hsplit : Rlp.SplitList buf = .ok (elems, rest)) (hcount : Rlp.CountValues elems = .ok 2) :
    decodeNode hash buf cachegen = wrapResult (decodeShort hash elems cachegen) "short" := by
  have hlen : buf.length ≠ 0 := by
    have := Rlp.SplitList_content_lt hsplit
    omega
  rw [decodeNode, if_neg hlen]
  split
  all_goals simp_all

/-- decodeShort panics on a key that unpacks to nothing or cannot be
unpacked. -/
theorem decodeShort_panics {hash elems kbuf rest : List UInt8} {cachegen : UInt16}
    (hs : Rlp.SplitString elems = .ok (kbuf, rest))
    (hkey : compactDecode kbuf = none ∨ compactDecode kbuf = some []) :
    ∃ message, decodeShort hash elems cachegen = .error (.panic message) := by
  rw [decodeShort]
  split
  all_goals simp_all
  rcases hkey with h | h <;> simp [h]

/-- decodeNode panics on the lone tag 0x81, in readKind, and on a short
node whose key is the empty string or a byte below 16, in compactDecode or
on the last nibble of the key. -/
theorem decodeNode_panics :
    (∀ hash cachegen, ∃ message, decodeNode hash [0x81] cachegen = .error (.panic message)) ∧
    ∀ hash buf cachegen elems rest, Rlp.SplitList buf = .ok (elems, rest) →
      Rlp.CountValues elems = .ok 2 → (elems.head? = some 0x80 ∨ ∃ b < 16, elems.head? = some b) →
      ∃ message, decodeNode hash buf cachegen = .error (.panic message) := by
  refine ⟨fun hash cachegen => ⟨"index out of range", ?_⟩, ?_⟩
  · rw [decodeNode]
    rfl
  · intro hash buf cachegen elems rest hsplit hcount hhead
    rw [decodeNode_short hsplit hcount]
    obtain ⟨b, t, rfl⟩ : ∃ b t, elems = b :: t := by
      cases elems with
      | nil => simp at hhead
      | cons b t => exact ⟨b, t, rfl⟩
    -- the key is split off, then unpacked to nothing or not at all
    have hshort : ∃ message, decodeShort hash (b :: t) cachegen = .error (.panic message) := by
      rcases hhead with h | ⟨b', hb', h⟩
      · cases h
        exact decodeShort_panics (Rlp.SplitString_empty t) (Or.inl compactDecode_nil)
      · cases h
        have h80 : b < 0x80 := by
          rw [UInt8.lt_iff_toNat_lt] at hb' ⊢
          simp only [UInt8.reduceToNat] at hb' ⊢
          omega
        exact decodeShort_panics (Rlp.SplitString_byte h80 t)
          (Or.inr (compactDecode_low hb'))
    obtain ⟨message, hm⟩ := hshort
    exact ⟨message, by rw [hm, wrapResult_panic]⟩

theorem decodeNode_panics_emptyKey :
    Rlp.SplitList [0xc2, 0x80, 0x80] = .ok ([0x80, 0x80], []) ∧
      Rlp.CountValues [0x80, 0x80] = .ok 2 ∧
      ∃ message, decodeNode [] [0xc2, 0x80, 0x80] 0 = .error (.panic message) :=
  have hsplit : Rlp.SplitList [0xc2, 0x80, 0x80] = .ok ([0x80, 0x80], []) := rfl
  have hcount : Rlp.CountValues [0x80, 0x80] = .ok 2 := by decide +kernel
  ⟨hsplit, hcount, decodeNode_panics.2 [] _ 0 _ _ hsplit hcount (Or.inl rfl)⟩

end GoEthereum.Trie
