import GoEthereum.Data.LastByKey
import Mathlib

/-!
Sub-protocol multiplexing of `p2p/peer.go`. After the handshake each end runs
`matchProtocols` on its own protocols and the capabilities the other end
advertised; the map gives every matched protocol a range of message codes
above the 16 of the base protocol, `protoRW.WriteMsg` shifts a code into its
range, and `Peer.handle` routes it back through `getProto`.

The two ends build maps with the same names, versions and offsets
(`matchProtocols_agree`), a name is matched at the highest version both
support (`lookup_matchProtocols`), and while the code space fits in 64 bits
every code written at one end reaches its protocol at the other
(`route_writeMsg`); past that, offsets wrap and a range can be empty
(`matchProtocols_code_space_wraps`).
-/

namespace GoEthereum.P2p

open GoEthereum.LastByKey

/-- `Msg` of `message.go`, with the fields the multiplexer reads: the code and
the payload, which passes through unchanged. -/
structure Msg where
  Code : UInt64
  Payload : List UInt8
  deriving DecidableEq, Repr

/-- A peer capability: a protocol name and version. -/
structure Cap where
  Name : String
  Version : Nat
  deriving DecidableEq, Repr

/-- A sub-protocol; `Run` stands for the protocol's callbacks, of any type. -/
structure Protocol (ρ : Type) where
  Name : String
  Version : Nat
  Length : UInt64
  Run : ρ

variable {ρ ρ' : Type}

/-- `Protocol.cap`. -/
def Protocol.cap (p : Protocol ρ) : Cap :=
  ⟨p.Name, p.Version⟩

/-- A matched protocol and the first code of its range. The embedded protocol
comes last because its field name would shadow its type. -/
structure ProtoRW (ρ : Type) where
  offset : UInt64
  Protocol : Protocol ρ

/-- The errors this part of the peer returns. `errInvalidMsgCode` is
`newPeerError(errInvalidMsgCode, ...)` with its message, `msgCodeOutOfRange` is
`handle`'s `"msg code out of range: %v"`, and `disc` the disconnect reason a
remote sends, which ends the peer. -/
inductive PeerError where
  | errInvalidMsgCode (message : String)
  | msgCodeOutOfRange (code : UInt64)
  | disc
  deriving DecidableEq, Repr

def baseProtocolLength : UInt64 := 16

def discMsg : UInt64 := 0x01

def pingMsg : UInt64 := 0x02

/-- The capabilities a server advertises: `Server.Start` appends `p.cap()` for
each of its protocols to `srv.ourHandshake.Caps`. -/
def ourCaps (protocols : List (Protocol ρ)) : List Cap :=
  protocols.map Protocol.cap

/-- `capsByNameAndVersion.Less`; Go compares names byte by byte, which on
UTF-8 text is the order of `String`. -/
def capsByNameAndVersion.Less (a b : Cap) : Bool :=
  decide (a.Name < b.Name) || (a.Name == b.Name && decide (a.Version < b.Version))

/-- `sort.Sort(capsByNameAndVersion(caps))`. Two capabilities that neither
order strictly are equal, so every sorting algorithm gives this list. -/
def sortCaps (caps : List Cap) : List Cap :=
  caps.mergeSort (fun a b => !capsByNameAndVersion.Less b a)

/-- The state of the loop of `matchProtocols`: the next free code and the map
built so far. -/
structure MatchState (ρ : Type) where
  offset : UInt64
  result : AList (fun _ : String => ProtoRW ρ)

/-- One pass of the outer loop of `matchProtocols`: the first protocol with the
capability's name and version is matched; if an older version of it was
matched before, its codes are given back first. -/
def matchStep (protocols : List (Protocol ρ)) (st : MatchState ρ) (cap : Cap) : MatchState ρ :=
  match protocols.find? (fun proto => proto.Name == cap.Name && proto.Version == cap.Version) with
  | none => st
  | some proto =>
    let offset :=
      match st.result.lookup cap.Name with
      | some old => st.offset - old.Protocol.Length
      | none => st.offset
    { offset := offset + proto.Length
      result := st.result.insert cap.Name ⟨offset, proto⟩ }

/-- The loop of `matchProtocols`, from the first code after the base
protocol. -/
def matchLoop (protocols : List (Protocol ρ)) (caps : List Cap) : MatchState ρ :=
  (sortCaps caps).foldl (matchStep protocols) ⟨baseProtocolLength, ∅⟩

def matchProtocols (protocols : List (Protocol ρ)) (caps : List Cap) :
    AList (fun _ : String => ProtoRW ρ) :=
  (matchLoop protocols caps).result

/-- The values of a map, in the order its entries are stored. -/
def values (m : AList (fun _ : String => ProtoRW ρ)) : List (ProtoRW ρ) :=
  m.entries.map Sigma.snd

/-- Whether `code` lies in `proto`'s range, computed as `getProto` does, in
64-bit arithmetic. -/
def ProtoRW.Holds (proto : ProtoRW ρ) (code : UInt64) : Bool :=
  code >= proto.offset && code < proto.offset + proto.Protocol.Length

/-- `Peer.getProto`: `running` is the order in which this call's
`range p.running` visits the map's values. -/
def Peer.getProto (running : List (ProtoRW ρ)) (code : UInt64) : Except PeerError (ProtoRW ρ) :=
  match running.find? (fun proto => proto.Holds code) with
  | some proto => .ok proto
  | none => .error (.errInvalidMsgCode (toString code))

/-- `Peer.handle`: `none` for a message of the base protocol, which is
answered (a ping) or dropped; a sub-protocol message is handed, unchanged, to
the protocol that `getProto` finds. -/
def Peer.handle (running : List (ProtoRW ρ)) (msg : Msg) :
    Except PeerError (Option (ProtoRW ρ × Msg)) :=
  if msg.Code = pingMsg then .ok none
  else if msg.Code = discMsg then .error .disc
  else if msg.Code < baseProtocolLength then .ok none
  else
    match Peer.getProto running msg.Code with
    | .ok proto => .ok (some (proto, msg))
    | .error _ => .error (.msgCodeOutOfRange msg.Code)

/-- `protoRW.WriteMsg`: the message passed on to the connection. -/
def ProtoRW.WriteMsg (rw : ProtoRW ρ) (msg : Msg) : Except PeerError Msg :=
  if msg.Code >= rw.Protocol.Length then .error (.errInvalidMsgCode "not handled")
  else .ok { msg with Code := msg.Code + rw.offset }

/-- `protoRW.ReadMsg` on a message that `handle` put on the protocol's `in`
channel. -/
def ProtoRW.ReadMsg (rw : ProtoRW ρ) (msg : Msg) : Msg :=
  { msg with Code := msg.Code - rw.offset }

/-! ### One pass of the matching loop -/

section Step

variable {protocols : List (Protocol ρ)} {st : MatchState ρ} {c : Cap}

theorem cap_of_find?_eq_some {p : Protocol ρ}
    (h : protocols.find? (fun proto => proto.Name == c.Name && proto.Version == c.Version) =
      some p) :
    p ∈ protocols ∧ p.cap = c := by
  have hp := List.find?_some h
  simp only [Bool.and_eq_true, beq_iff_eq] at hp
  refine ⟨List.mem_of_find?_eq_some h, ?_⟩
  cases c
  simp only [Protocol.cap, hp.1, hp.2]

theorem find?_cap_eq_none_iff :
    protocols.find? (fun proto => proto.Name == c.Name && proto.Version == c.Version) = none ↔
      c ∉ ourCaps protocols := by
  cases c
  simp [List.find?_eq_none, ourCaps, Protocol.cap]

/-- A capability none of the protocols has leaves the loop's state as it is. -/
theorem matchStep_of_not_mem (h : c ∉ ourCaps protocols) : matchStep protocols st c = st := by
  simp only [matchStep, find?_cap_eq_none_iff.mpr h]

/-- Every entry of a map is one of `protocols`, under its own name. -/
def Sound (protocols : List (Protocol ρ)) (m : AList (fun _ : String => ProtoRW ρ)) : Prop :=
  ∀ n P, m.lookup n = some P → P.Protocol ∈ protocols ∧ P.Protocol.Name = n

theorem sound_empty : Sound protocols ∅ := by
  intro n P h
  simp [AList.lookup_empty] at h

theorem sound_matchStep (hs : Sound protocols st.result) :
    Sound protocols (matchStep protocols st c).result := by
  unfold matchStep
  split
  · exact hs
  case h_2 p hp =>
    obtain ⟨hmem, hcap⟩ := cap_of_find?_eq_some hp
    intro n P hP
    by_cases hn : n = c.Name
    · subst hn
      rw [AList.lookup_insert, Option.some_inj] at hP
      subst hP
      exact ⟨hmem, by rw [← hcap]; rfl⟩
    · rw [AList.lookup_insert_ne hn] at hP
      exact hs n P hP

theorem sound_foldl_matchStep :
    ∀ (cs : List Cap) (st : MatchState ρ), Sound protocols st.result →
      Sound protocols (cs.foldl (matchStep protocols) st).result
  | [], _, hs => hs
  | _ :: cs, _, hs => sound_foldl_matchStep cs _ (sound_matchStep hs)

end Step

/-! ### What the other end sees

Two ends match their own protocols, whose callbacks differ; what they can
agree on is, for each name, the matched capability and its offset. Seen that
way, a pass of the loop depends on the protocols only through the lengths, and
when both ends take their lengths from one function `L` of name and version,
it is `capStep L`, the same at both ends. -/

section View

/-- What a map entry says about its name: the matched capability and its
offset. -/
def ProtoRW.slot (rw : ProtoRW ρ) : Cap × UInt64 :=
  (rw.Protocol.cap, rw.offset)

/-- A map, by name, as the other end of the connection sees it. -/
def view (m : AList (fun _ : String => ProtoRW ρ)) (n : String) : Option (Cap × UInt64) :=
  (m.lookup n).map ProtoRW.slot

def MatchState.view (st : MatchState ρ) : UInt64 × (String → Option (Cap × UInt64)) :=
  (st.offset, P2p.view st.result)

/-- A pass of the loop on a matched capability, seen through `view`, with the
lengths given by `L`. -/
def capStep (L : String → Nat → UInt64) (s : UInt64 × (String → Option (Cap × UInt64)))
    (c : Cap) : UInt64 × (String → Option (Cap × UInt64)) :=
  let offset :=
    match s.2 c.Name with
    | some (old, _) => s.1 - L old.Name old.Version
    | none => s.1
  (offset + L c.Name c.Version, Function.update s.2 c.Name (some (c, offset)))

variable {protocols : List (Protocol ρ)} {st : MatchState ρ} {c : Cap}
  {L : String → Nat → UInt64}

theorem view_empty : view (∅ : AList (fun _ : String => ProtoRW ρ)) = fun _ => none := by
  funext n
  simp [view, AList.lookup_empty]

theorem view_insert (m : AList (fun _ : String => ProtoRW ρ)) (n : String) (P : ProtoRW ρ) :
    view (m.insert n P) = Function.update (view m) n (some P.slot) := by
  funext n'
  by_cases hn : n' = n
  · subst hn
    simp [view, AList.lookup_insert]
  · simp [view, AList.lookup_insert_ne hn, Function.update_of_ne hn]

/-- Given back the codes of an older version: the offset `matchStep` starts
from is the one `capStep` starts from. -/
theorem revert_offset_view (hL : ∀ p ∈ protocols, p.Length = L p.Name p.Version)
    (hs : Sound protocols st.result) :
    (match st.result.lookup c.Name with
      | some old => st.offset - old.Protocol.Length
      | none => st.offset) =
    (match view st.result c.Name with
      | some (old, _) => st.offset - L old.Name old.Version
      | none => st.offset) := by
  cases hold : st.result.lookup c.Name with
  | none => simp [view, hold]
  | some old =>
    have hlen := hL old.Protocol (hs c.Name old hold).1
    simp [view, hold, ProtoRW.slot, Protocol.cap, hlen]

/-- One pass of the loop on a capability that one of the protocols has is
`capStep`. -/
theorem view_matchStep (hL : ∀ p ∈ protocols, p.Length = L p.Name p.Version)
    (hs : Sound protocols st.result) (hc : c ∈ ourCaps protocols) :
    (matchStep protocols st c).view = capStep L st.view c := by
  obtain ⟨p, hp⟩ := Option.ne_none_iff_exists'.mp (mt find?_cap_eq_none_iff.mp (not_not.mpr hc))
  obtain ⟨hmem, hcap⟩ := cap_of_find?_eq_some hp
  have hlen : p.Length = L c.Name c.Version := by rw [hL p hmem, ← hcap]; rfl
  simp only [matchStep, hp, MatchState.view, capStep, view_insert, ProtoRW.slot, hcap, hlen,
    revert_offset_view hL hs]

end View

/-! ### The whole loop

Over the sorted capabilities, the unmatched ones do nothing and a matched one
is forgotten as soon as a later version of its name is matched: the loop ends
as `capStep` run over `common`, the capabilities both ends have, one per name,
the highest version. -/

section Loop

variable {L : String → Nat → UInt64}

/-- The capabilities among `caps` that the end with `protocols` matches, in
sorted order, one per name. -/
def common (protocols : List (Protocol ρ)) (caps : List Cap) : List Cap :=
  lastByKey Cap.Name ((sortCaps caps).filter (fun c => decide (c ∈ ourCaps protocols)))

/-- The state of the loop seen through `view` is that of `capStep` run over the
matched capabilities. -/
theorem view_foldl_matchStep {protocols : List (Protocol ρ)}
    (hL : ∀ p ∈ protocols, p.Length = L p.Name p.Version) :
    ∀ (cs : List Cap) (st : MatchState ρ), Sound protocols st.result →
      (cs.foldl (matchStep protocols) st).view =
        (cs.filter (fun c => decide (c ∈ ourCaps protocols))).foldl (capStep L) st.view
  | [], _, _ => rfl
  | c :: cs, st, hs => by
    by_cases hc : c ∈ ourCaps protocols
    · rw [List.foldl_cons, view_foldl_matchStep hL cs _ (sound_matchStep hs),
        view_matchStep hL hs hc, List.filter_cons_of_pos (by simpa using hc), List.foldl_cons]
    · rw [List.foldl_cons, matchStep_of_not_mem hc, view_foldl_matchStep hL cs st hs,
        List.filter_cons_of_neg (by simpa using hc)]

/-- A later version of a name undoes what an earlier one did. -/
theorem capStep_overrides : Overrides Cap.Name (capStep L) := by
  intro s a b hab
  obtain ⟨o, m⟩ := s
  simp only [capStep, ← hab, Function.update_self, UInt64.add_sub_cancel,
    Function.update_idem]

theorem view_matchLoop {protocols : List (Protocol ρ)}
    (hL : ∀ p ∈ protocols, p.Length = L p.Name p.Version) (caps : List Cap) :
    (matchLoop protocols caps).view =
      (common protocols caps).foldl (capStep L) (baseProtocolLength, fun _ => none) := by
  rw [matchLoop, view_foldl_matchStep hL _ _ sound_empty, common,
    foldl_lastByKey capStep_overrides]
  simp only [MatchState.view, view_empty]

end Loop

/-! ### Both ends match the same capabilities -/

section Common

/-- Sorted by `capsByNameAndVersion` is sorted by name, then by version. -/
theorem keyThen_iff_not_less {a b : Cap} :
    (!capsByNameAndVersion.Less b a) = true ↔ KeyThen Cap.Name Cap.Version a b := by
  rcases lt_trichotomy a.Name b.Name with h | h | h
  · simp [capsByNameAndVersion.Less, KeyThen, h, not_lt_of_gt h, ne_of_gt h]
  · simp [capsByNameAndVersion.Less, KeyThen, h]
  · simp [capsByNameAndVersion.Less, KeyThen, h, not_lt_of_gt h, ne_of_gt h]

theorem pairwise_sortCaps (caps : List Cap) :
    (sortCaps caps).Pairwise (KeyThen Cap.Name Cap.Version) := by
  have htrans : ∀ a b c : Cap, (!capsByNameAndVersion.Less b a) = true →
      (!capsByNameAndVersion.Less c b) = true → (!capsByNameAndVersion.Less c a) = true := by
    intro a b c hab hbc
    exact keyThen_iff_not_less.mpr
      ((keyThen_iff_not_less.mp hab).trans (keyThen_iff_not_less.mp hbc))
  have htotal : ∀ a b : Cap,
      ((!capsByNameAndVersion.Less b a) || (!capsByNameAndVersion.Less a b)) = true := by
    intro a b
    have htotal : KeyThen Cap.Name Cap.Version a b ∨ KeyThen Cap.Name Cap.Version b a :=
      KeyThen.total a b
    rcases htotal with h | h
    · simp [keyThen_iff_not_less.mpr h]
    · simp [keyThen_iff_not_less.mpr h]
  exact (List.pairwise_mergeSort htrans htotal caps).imp keyThen_iff_not_less.mp

/-- A list already in order is left as it is. -/
theorem sortCaps_eq_self {caps : List Cap}
    (h : caps.Pairwise (fun a b => (!capsByNameAndVersion.Less b a) = true)) :
    sortCaps caps = caps :=
  List.mergeSort_of_pairwise h

variable {protocols : List (Protocol ρ)} {caps : List Cap}

/-- `common` holds exactly the capabilities both sides have that no shared
capability of the same name beats in version. -/
theorem mem_common {c : Cap} :
    c ∈ common protocols caps ↔ (c ∈ caps ∧ c ∈ ourCaps protocols) ∧
      ∀ d, d ∈ caps → d ∈ ourCaps protocols → d.Name = c.Name → d.Version ≤ c.Version := by
  have hinj : ∀ a b : Cap, a.Name = b.Name → a.Version = b.Version → a = b := by
    rintro ⟨_, _⟩ ⟨_, _⟩ h h'
    simp only [Cap.mk.injEq]
    exact ⟨h, h'⟩
  rw [common, mem_lastByKey hinj ((pairwise_sortCaps caps).filter _)]
  simp [sortCaps]

/-- A name both sides have is kept in `common`, with some version. -/
theorem exists_mem_common {c : Cap} (hc : c ∈ caps) (hp : c ∈ ourCaps protocols) :
    ∃ d ∈ common protocols caps, d.Name = c.Name :=
  exists_mem_lastByKey (by simpa [sortCaps] using ⟨hc, hp⟩)

theorem pairwise_common :
    (common protocols caps).Pairwise (fun a b => a.Name < b.Name) :=
  pairwise_lastByKey ((pairwise_sortCaps caps).filter _)

/-- Each end matches its own protocols against the other's capabilities, and
both arrive at the same list. -/
theorem common_comm (A : List (Protocol ρ)) (B : List (Protocol ρ')) :
    common A (ourCaps B) = common B (ourCaps A) := by
  have : Std.Irrefl (fun a b : Cap => a.Name < b.Name) := ⟨fun a => lt_irrefl a.Name⟩
  refine pairwise_common.eq_of_mem_iff pairwise_common fun c => ?_
  rw [mem_common, mem_common]
  constructor
  · rintro ⟨⟨hB, hA⟩, hmax⟩
    exact ⟨⟨hA, hB⟩, fun d hdA hdB => hmax d hdB hdA⟩
  · rintro ⟨⟨hA, hB⟩, hmax⟩
    exact ⟨⟨hB, hA⟩, fun d hdB hdA => hmax d hdA hdB⟩

end Common

/-! ### Offsets over distinct names

Once older versions are gone, every name of `common` comes once, and
`capStep` never gives codes back: each range starts where the one before it
ends. While the ranges and the 16 base codes fit in 64 bits, the offsets are
the partial sums of the lengths, and the ranges tile the code space. -/

section Slots

variable {L : String → Nat → UInt64}

/-- The offsets `capStep` gives capabilities of distinct names, from `offset`
on. -/
def slots (L : String → Nat → UInt64) (offset : UInt64) : List Cap → List (Cap × UInt64)
  | [] => []
  | c :: cs => (c, offset) :: slots L (offset + L c.Name c.Version) cs

/-- The number of codes a list of capabilities takes. -/
def codeSpace (L : String → Nat → UInt64) (cs : List Cap) : Nat :=
  (cs.map fun c => (L c.Name c.Version).toNat).sum

theorem map_fst_slots : ∀ (offset : UInt64) (cs : List Cap), (slots L offset cs).map Prod.fst = cs
  | _, [] => rfl
  | _, c :: cs => by simp [slots, map_fst_slots _ cs]

/-- Over distinct names in increasing order, `capStep` adds each capability at
the next free offset. -/
theorem foldl_capStep_of_pairwise :
    ∀ (cs : List Cap) (offset : UInt64) (m : String → Option (Cap × UInt64)),
      cs.Pairwise (fun a b => a.Name < b.Name) → (∀ c ∈ cs, m c.Name = none) →
      (cs.foldl (capStep L) (offset, m)).2 =
        fun n => ((slots L offset cs).find? (fun x => x.1.Name == n)).or (m n)
  | [], _, _, _, _ => by simp [slots]
  | c :: cs, offset, m, hcs, hm => by
    have hstep : capStep L (offset, m) c =
        (offset + L c.Name c.Version, Function.update m c.Name (some (c, offset))) := by
      simp [capStep, hm c List.mem_cons_self]
    have hm' : ∀ d ∈ cs, Function.update m c.Name (some (c, offset)) d.Name = none := by
      intro d hd
      rw [Function.update_of_ne (ne_of_gt (List.rel_of_pairwise_cons hcs hd))]
      exact hm d (List.mem_cons_of_mem c hd)
    rw [List.foldl_cons, hstep, foldl_capStep_of_pairwise cs _ _ hcs.of_cons hm']
    funext n
    by_cases hn : c.Name = n
    · subst hn
      -- no later capability has `c`'s name
      have hnone : (slots L (offset + L c.Name c.Version) cs).find?
          (fun x => x.1.Name == c.Name) = none := by
        rw [List.find?_eq_none]
        intro x hx
        have hx1 : x.1 ∈ cs := map_fst_slots (L := L) _ cs ▸ List.mem_map_of_mem hx
        simpa using ne_of_gt (List.rel_of_pairwise_cons hcs hx1)
      simp [slots, hnone]
    · simp [slots, hn, Function.update_of_ne (Ne.symm hn)]

theorem toNat_add_of_lt {a b : UInt64} (h : a.toNat + b.toNat < 2 ^ 64) :
    (a + b).toNat = a.toNat + b.toNat := by
  rw [UInt64.toNat_add, Nat.mod_eq_of_lt h]

/-- The offset after a capability, when its range fits. -/
theorem toNat_next {offset : UInt64} {c : Cap} {cs : List Cap}
    (hfit : offset.toNat + codeSpace L (c :: cs) < 2 ^ 64) :
    (offset + L c.Name c.Version).toNat = offset.toNat + (L c.Name c.Version).toNat ∧
      (offset + L c.Name c.Version).toNat + codeSpace L cs < 2 ^ 64 := by
  have hsum : codeSpace L (c :: cs) = (L c.Name c.Version).toNat + codeSpace L cs := by
    simp [codeSpace]
  have hnext := toNat_add_of_lt (a := offset) (b := L c.Name c.Version) (by omega)
  omega

/-- Every range lies between the first offset and the end of the code space. -/
theorem slots_bounds :
    ∀ (cs : List Cap) (offset : UInt64), offset.toNat + codeSpace L cs < 2 ^ 64 →
      ∀ x ∈ slots L offset cs, offset.toNat ≤ x.2.toNat ∧
        x.2.toNat + (L x.1.Name x.1.Version).toNat ≤ offset.toNat + codeSpace L cs
  | [], _, _, x, hx => by simp [slots] at hx
  | c :: cs, offset, hfit, x, hx => by
    obtain ⟨hnext, hfit'⟩ := toNat_next hfit
    have hsum : codeSpace L (c :: cs) = (L c.Name c.Version).toNat + codeSpace L cs := by
      simp [codeSpace]
    rcases List.mem_cons.mp hx with rfl | hx
    · simp only
      omega
    · have ih := slots_bounds cs _ hfit' x hx
      omega

/-- A range ends before the range of any later name begins. -/
theorem slots_ordered :
    ∀ (cs : List Cap) (offset : UInt64), cs.Pairwise (fun a b => a.Name < b.Name) →
      offset.toNat + codeSpace L cs < 2 ^ 64 →
      ∀ x ∈ slots L offset cs, ∀ y ∈ slots L offset cs, x.1.Name < y.1.Name →
        x.2.toNat + (L x.1.Name x.1.Version).toNat ≤ y.2.toNat
  | [], _, _, _, x, hx, _, _, _ => by simp [slots] at hx
  | c :: cs, offset, hcs, hfit, x, hx, y, hy, hxy => by
    obtain ⟨hnext, hfit'⟩ := toNat_next hfit
    -- a capability of the tail has a greater name than the head
    have htail : ∀ z ∈ slots L (offset + L c.Name c.Version) cs, c.Name < z.1.Name := by
      intro z hz
      have hz1 : z.1 ∈ cs := map_fst_slots (L := L) _ cs ▸ List.mem_map_of_mem hz
      exact List.rel_of_pairwise_cons hcs hz1
    rcases List.mem_cons.mp hx with rfl | hx <;> rcases List.mem_cons.mp hy with rfl | hy
    · exact absurd hxy (lt_irrefl _)
    · have hy' := (slots_bounds cs _ hfit' y hy).1
      simp only
      omega
    · exact absurd (htail x hx) (not_lt_of_gt hxy)
    · exact slots_ordered cs _ hcs.of_cons hfit' x hx y hy hxy

/-- The ranges cover the code space, from the first offset on. -/
theorem slots_cover :
    ∀ (cs : List Cap) (offset : UInt64), offset.toNat + codeSpace L cs < 2 ^ 64 → ∀ k : Nat,
      (offset.toNat ≤ k ∧ k < offset.toNat + codeSpace L cs ↔
        ∃ x ∈ slots L offset cs, x.2.toNat ≤ k ∧ k < x.2.toNat + (L x.1.Name x.1.Version).toNat)
  | [], _, _, k => by simp [slots, codeSpace]
  | c :: cs, offset, hfit, k => by
    obtain ⟨hnext, hfit'⟩ := toNat_next hfit
    have hsum : codeSpace L (c :: cs) = (L c.Name c.Version).toNat + codeSpace L cs := by
      simp [codeSpace]
    have ih := slots_cover cs _ hfit' k
    simp only [slots, List.mem_cons, exists_eq_or_imp]
    constructor
    · intro hk
      by_cases hhead : k < offset.toNat + (L c.Name c.Version).toNat
      · exact .inl ⟨hk.1, hhead⟩
      · exact .inr (ih.mp ⟨by omega, by omega⟩)
    · rintro (hk | hk)
      · omega
      · have := ih.mpr hk
        omega

end Slots

/-! ### The map `matchProtocols` builds -/

section Map

variable {L : String → Nat → UInt64} {protocols : List (Protocol ρ)} {caps : List Cap}

/-- In a list sorted strictly by name, the search by name finds the one entry
with that name. -/
theorem find?_name_eq_some {n : String} {x : Cap × UInt64} :
    ∀ {l : List (Cap × UInt64)}, (l.map Prod.fst).Pairwise (fun a b => a.Name < b.Name) →
      (l.find? (fun y => y.1.Name == n) = some x ↔ x ∈ l ∧ x.1.Name = n)
  | [], _ => by simp
  | y :: l, hl => by
    have ih := find?_name_eq_some (n := n) (x := x) (l := l) (List.pairwise_cons.mp hl).2
    have hlater : ∀ z ∈ l, y.1.Name < z.1.Name := fun z hz =>
      (List.pairwise_cons.mp hl).1 z.1 (List.mem_map_of_mem hz)
    by_cases hy : y.1.Name = n
    · rw [List.find?_cons_of_pos (by simpa using hy), Option.some.injEq, List.mem_cons]
      constructor
      · rintro rfl
        exact ⟨.inl rfl, hy⟩
      · rintro ⟨rfl | hx, hxn⟩
        · rfl
        · exact absurd (hlater x hx) (by rw [hy, hxn]; exact lt_irrefl n)
    · rw [List.find?_cons_of_neg (by simpa using hy), ih, List.mem_cons]
      constructor
      · rintro ⟨hx, hxn⟩
        exact ⟨.inr hx, hxn⟩
      · rintro ⟨rfl | hx, hxn⟩
        · exact absurd hxn hy
        · exact ⟨hx, hxn⟩

theorem pairwise_map_fst_slots (offset : UInt64) :
    ((slots L offset (common protocols caps)).map Prod.fst).Pairwise
      (fun a b => a.Name < b.Name) := by
  rw [map_fst_slots]
  exact pairwise_common

/-- The map `matchProtocols` builds holds, under each name of `common`, its
capability at the offset `slots` gives it, and nothing else. -/
theorem view_matchProtocols_eq_some (hL : ∀ p ∈ protocols, p.Length = L p.Name p.Version)
    {n : String} {x : Cap × UInt64} :
    view (matchProtocols protocols caps) n = some x ↔
      x ∈ slots L baseProtocolLength (common protocols caps) ∧ x.1.Name = n := by
  have h := congrArg Prod.snd (view_matchLoop hL caps)
  rw [foldl_capStep_of_pairwise _ _ _ pairwise_common (fun _ _ => rfl)] at h
  have hview : view (matchProtocols protocols caps) n =
      (slots L baseProtocolLength (common protocols caps)).find? (fun y => y.1.Name == n) := by
    simpa [MatchState.view, matchProtocols] using congrFun h n
  rw [hview, find?_name_eq_some (pairwise_map_fst_slots _)]

theorem sound_matchProtocols : Sound protocols (matchProtocols protocols caps) :=
  sound_foldl_matchStep _ _ sound_empty

theorem mem_values_iff {m : AList (fun _ : String => ProtoRW ρ)} {P : ProtoRW ρ} :
    P ∈ values m ↔ ∃ n, m.lookup n = some P := by
  simp only [values, List.mem_map]
  constructor
  · rintro ⟨⟨n, P⟩, hmem, rfl⟩
    exact ⟨n, AList.mem_lookup_iff.mpr hmem⟩
  · rintro ⟨n, hn⟩
    exact ⟨⟨n, P⟩, AList.mem_lookup_iff.mp hn, rfl⟩

/-- A matched protocol's length is the one `L` gives its capability. -/
theorem length_of_mem_values (hL : ∀ p ∈ protocols, p.Length = L p.Name p.Version)
    {P : ProtoRW ρ} (hP : P ∈ values (matchProtocols protocols caps)) :
    P.Protocol.Length = L P.slot.1.Name P.slot.1.Version := by
  obtain ⟨n, hn⟩ := mem_values_iff.mp hP
  exact hL _ (sound_matchProtocols n P hn).1

/-- Each value of the map is one of `slots`, seen through `slot`. -/
theorem slot_mem_slots (hL : ∀ p ∈ protocols, p.Length = L p.Name p.Version)
    {P : ProtoRW ρ} (hP : P ∈ values (matchProtocols protocols caps)) :
    P.slot ∈ slots L baseProtocolLength (common protocols caps) := by
  obtain ⟨n, hn⟩ := mem_values_iff.mp hP
  have hview : view (matchProtocols protocols caps) n = some P.slot := by simp [view, hn]
  exact ((view_matchProtocols_eq_some hL).mp hview).1

/-- The values of the map are `slots`, in some order. -/
theorem perm_slots_values (hL : ∀ p ∈ protocols, p.Length = L p.Name p.Version) :
    ((values (matchProtocols protocols caps)).map ProtoRW.slot).Perm
      (slots L baseProtocolLength (common protocols caps)) := by
  set m := matchProtocols protocols caps
  -- two entries with one slot have one name, hence one key
  have hinj : ∀ a ∈ m.entries, ∀ b ∈ m.entries, a.2.slot = b.2.slot → a = b := by
    rintro ⟨n, P⟩ ha ⟨n', Q⟩ hb hPQ
    have hPn := (sound_matchProtocols n P (AList.mem_lookup_iff.mpr ha)).2
    have hQn := (sound_matchProtocols n' Q (AList.mem_lookup_iff.mpr hb)).2
    have hnn' : n = n' := by
      have hcap := congrArg (fun x => x.1.Name) hPQ
      simp only [ProtoRW.slot, Protocol.cap] at hcap
      rw [← hPn, ← hQn, hcap]
    subst hnn'
    have hPQ' : some P = some Q :=
      (AList.mem_lookup_iff.mpr ha).symm.trans (AList.mem_lookup_iff.mpr hb)
    cases Option.some.inj hPQ'
    rfl
  have hnodup : ((values m).map ProtoRW.slot).Nodup := by
    rw [values, List.map_map]
    exact m.nodupKeys.nodup.map_on hinj
  have hslots : (slots L baseProtocolLength (common protocols caps)).Nodup := by
    refine List.Nodup.of_map Prod.fst ((pairwise_map_fst_slots _).imp ?_)
    intro a b hab heq
    exact lt_irrefl a.Name (heq ▸ hab)
  refine (List.perm_ext_iff_of_nodup hnodup hslots).mpr fun x => ?_
  constructor
  · intro hx
    obtain ⟨P, hP, rfl⟩ := List.mem_map.mp hx
    exact slot_mem_slots hL hP
  · intro hx
    obtain ⟨P, hP, hPx⟩ := Option.map_eq_some_iff.mp
      ((view_matchProtocols_eq_some hL (n := x.1.Name)).mpr ⟨hx, rfl⟩)
    exact List.mem_map.mpr ⟨P, mem_values_iff.mpr ⟨_, hP⟩, hPx⟩

/-- The codes the matched protocols take, counted over the map's values. -/
theorem sum_values_length (hL : ∀ p ∈ protocols, p.Length = L p.Name p.Version) :
    ((values (matchProtocols protocols caps)).map fun P => P.Protocol.Length.toNat).sum =
      codeSpace L (common protocols caps) := by
  have hmap : (values (matchProtocols protocols caps)).map (fun P => P.Protocol.Length.toNat) =
      ((values (matchProtocols protocols caps)).map ProtoRW.slot).map
        (fun x => (L x.1.Name x.1.Version).toNat) := by
    rw [List.map_map]
    exact List.map_congr_left fun P hP => by simp [length_of_mem_values hL hP]
  rw [hmap, ((perm_slots_values hL).map _).sum_nat]
  conv_rhs => rw [codeSpace, ← map_fst_slots (L := L) baseProtocolLength (common protocols caps)]
  rw [List.map_map]
  rfl

end Map

/-! ### Selection, tiling and routing -/

section Routing

variable {L : String → Nat → UInt64} {protocols : List (Protocol ρ)} {caps : List Cap}

theorem mem_slots_iff {offset : UInt64} {cs : List Cap} {c : Cap} :
    c ∈ cs ↔ ∃ x ∈ slots L offset cs, x.1 = c := by
  conv_lhs => rw [← map_fst_slots (L := L) offset cs]
  exact List.mem_map

/-- A name is mapped to one of the protocols, with the capability `common`
selects for it. -/
theorem lookup_matchProtocols (hL : ∀ p ∈ protocols, p.Length = L p.Name p.Version)
    {n : String} {P : ProtoRW ρ} (hP : (matchProtocols protocols caps).lookup n = some P) :
    P.Protocol ∈ protocols ∧ P.Protocol.Name = n ∧ P.Protocol.cap ∈ common protocols caps := by
  obtain ⟨hmem, hname⟩ := sound_matchProtocols n P hP
  have hslot := slot_mem_slots hL (mem_values_iff.mpr ⟨n, hP⟩)
  exact ⟨hmem, hname, mem_slots_iff.mpr ⟨P.slot, hslot, rfl⟩⟩

/-- Every capability of `common` is matched under its name. -/
theorem lookup_of_mem_common (hL : ∀ p ∈ protocols, p.Length = L p.Name p.Version)
    {c : Cap} (hc : c ∈ common protocols caps) :
    ∃ P, (matchProtocols protocols caps).lookup c.Name = some P ∧ P.Protocol.cap = c := by
  have hslot : ∃ x ∈ slots L baseProtocolLength (common protocols caps), x.1 = c :=
    mem_slots_iff.mp hc
  obtain ⟨x, hx, rfl⟩ := hslot
  obtain ⟨P, hP, hPx⟩ := Option.map_eq_some_iff.mp
    ((view_matchProtocols_eq_some hL (n := x.1.Name)).mpr ⟨hx, rfl⟩)
  exact ⟨P, hP, congrArg Prod.fst hPx⟩

/-- The code space the map takes, as the other end of the connection would
add it up. -/
theorem sum_values_comm {A : List (Protocol ρ)} {B : List (Protocol ρ')}
    (hA : ∀ p ∈ A, p.Length = L p.Name p.Version) (hB : ∀ p ∈ B, p.Length = L p.Name p.Version) :
    ((values (matchProtocols B (ourCaps A))).map fun P => P.Protocol.Length.toNat).sum =
      ((values (matchProtocols A (ourCaps B))).map fun P => P.Protocol.Length.toNat).sum := by
  rw [sum_values_length hA, sum_values_length hB, common_comm]

variable (hL : ∀ p ∈ protocols, p.Length = L p.Name p.Version)
  (hfit : 16 + ((values (matchProtocols protocols caps)).map
    fun P => P.Protocol.Length.toNat).sum < 2 ^ 64)
include hL hfit

theorem fits_common : baseProtocolLength.toNat + codeSpace L (common protocols caps) < 2 ^ 64 := by
  rw [← sum_values_length hL]
  exact hfit

/-- Every range lies in the code space, above the base protocol. -/
theorem range_bounds {P : ProtoRW ρ} (hP : P ∈ values (matchProtocols protocols caps)) :
    16 ≤ P.offset.toNat ∧ P.offset.toNat + P.Protocol.Length.toNat ≤
      16 + ((values (matchProtocols protocols caps)).map fun P => P.Protocol.Length.toNat).sum := by
  rw [length_of_mem_values hL hP, sum_values_length hL]
  exact slots_bounds _ _ (fits_common hL hfit) P.slot (slot_mem_slots hL hP)

/-- The ranges of two names come in the order of the names, one after the
other. -/
theorem range_ordered {n n' : String} {P Q : ProtoRW ρ}
    (hP : (matchProtocols protocols caps).lookup n = some P)
    (hQ : (matchProtocols protocols caps).lookup n' = some Q) (hnn' : n < n') :
    P.offset.toNat + P.Protocol.Length.toNat ≤ Q.offset.toNat := by
  have hPv : P ∈ values (matchProtocols protocols caps) := mem_values_iff.mpr ⟨n, hP⟩
  have hQv : Q ∈ values (matchProtocols protocols caps) := mem_values_iff.mpr ⟨n', hQ⟩
  have hPn := (sound_matchProtocols n P hP).2
  have hQn := (sound_matchProtocols n' Q hQ).2
  rw [length_of_mem_values hL hPv]
  refine slots_ordered _ _ pairwise_common (fits_common hL hfit) P.slot (slot_mem_slots hL hPv)
    Q.slot (slot_mem_slots hL hQv) ?_
  simpa [ProtoRW.slot, Protocol.cap, hPn, hQn] using hnn'

/-- The ranges cover the code space from 16 up to 16 plus the lengths of the
matched protocols. -/
theorem range_cover (k : Nat) :
    (16 ≤ k ∧ k < 16 + ((values (matchProtocols protocols caps)).map
        fun P => P.Protocol.Length.toNat).sum) ↔
      ∃ n P, (matchProtocols protocols caps).lookup n = some P ∧
        P.offset.toNat ≤ k ∧ k < P.offset.toNat + P.Protocol.Length.toNat := by
  rw [sum_values_length hL]
  refine (slots_cover _ _ (fits_common hL hfit) k).trans ⟨?_, ?_⟩
  · rintro ⟨x, hx, hk⟩
    obtain ⟨P, hP, rfl⟩ := List.mem_map.mp ((perm_slots_values hL).mem_iff.mpr hx)
    obtain ⟨n, hn⟩ := mem_values_iff.mp hP
    refine ⟨n, P, hn, ?_⟩
    rw [length_of_mem_values hL hP]
    exact hk
  · rintro ⟨n, P, hn, hk⟩
    have hPv : P ∈ values (matchProtocols protocols caps) := mem_values_iff.mpr ⟨n, hn⟩
    rw [length_of_mem_values hL hPv] at hk
    exact ⟨P.slot, slot_mem_slots hL hPv, hk⟩

/-- `Holds`, in 64-bit arithmetic, is membership in the range of a protocol
of the map. -/
theorem holds_iff {P : ProtoRW ρ} (hP : P ∈ values (matchProtocols protocols caps))
    {code : UInt64} :
    P.Holds code = true ↔
      P.offset.toNat ≤ code.toNat ∧ code.toNat < P.offset.toNat + P.Protocol.Length.toNat := by
  have hbound := range_bounds hL hfit hP
  have hadd : (P.offset + P.Protocol.Length).toNat = P.offset.toNat + P.Protocol.Length.toNat :=
    toNat_add_of_lt (by omega)
  simp [ProtoRW.Holds, UInt64.le_iff_toNat_le, UInt64.lt_iff_toNat_lt, hadd]

/-- Visiting the map's values in any order, `getProto` finds the protocol
whose range holds the code: no other range holds it. -/
theorem getProto_of_mem_range {running : List (ProtoRW ρ)}
    (hrun : running.Perm (values (matchProtocols protocols caps))) {n : String} {P : ProtoRW ρ}
    (hP : (matchProtocols protocols caps).lookup n = some P) {code : UInt64}
    (hcode : P.offset.toNat ≤ code.toNat ∧ code.toNat < P.offset.toNat + P.Protocol.Length.toNat) :
    Peer.getProto running code = .ok P := by
  have hPv : P ∈ values (matchProtocols protocols caps) := mem_values_iff.mpr ⟨n, hP⟩
  have hfound : (running.find? fun proto => proto.Holds code).isSome :=
    List.find?_isSome.mpr ⟨P, hrun.mem_iff.mpr hPv, (holds_iff hL hfit hPv).mpr hcode⟩
  obtain ⟨R, hR⟩ := Option.isSome_iff_exists.mp hfound
  have hRv := hrun.mem_iff.mp (List.mem_of_find?_eq_some hR)
  have hRholds : R.Holds code = true := List.find?_some (p := fun proto : ProtoRW ρ => proto.Holds code) hR
  have hRcode := (holds_iff hL hfit hRv).mp hRholds
  obtain ⟨n', hn'⟩ := mem_values_iff.mp hRv
  -- a second name would have a range before or after `P`'s
  have hnn' : n' = n := by
    rcases lt_trichotomy n' n with h | h | h
    · have := range_ordered hL hfit hn' hP h
      omega
    · exact h
    · have := range_ordered hL hfit hP hn' h
      omega
  subst hnn'
  have hRP : R = P := Option.some.inj (hn'.symm.trans hP)
  subst hRP
  simp [Peer.getProto, hR]

end Routing

/-! ### Writing, routing and reading one message -/

section Message

variable {P : ProtoRW ρ} {msg : Msg}

theorem writeMsg_of_lt (h : msg.Code < P.Protocol.Length) :
    P.WriteMsg msg = .ok { msg with Code := msg.Code + P.offset } := by
  simp [ProtoRW.WriteMsg, UInt64.not_le.mpr h]

/-- A code above the base protocol goes to `getProto`'s protocol. -/
theorem handle_of_getProto {running : List (ProtoRW ρ')} {Q : ProtoRW ρ'}
    (hbase : 16 ≤ msg.Code.toNat) (hQ : Peer.getProto running msg.Code = .ok Q) :
    Peer.handle running msg = .ok (some (Q, msg)) := by
  have hping : msg.Code ≠ pingMsg := fun h => by
    rw [h] at hbase
    exact absurd hbase (by decide)
  have hdisc : msg.Code ≠ discMsg := fun h => by
    rw [h] at hbase
    exact absurd hbase (by decide)
  have hsub : ¬msg.Code < baseProtocolLength := by
    rw [UInt64.lt_iff_toNat_lt]
    exact Nat.not_lt.mpr hbase
  simp [Peer.handle, hping, hdisc, hsub, hQ]

/-- Reading undoes the shift of writing, at the same offset. -/
theorem readMsg_writeMsg {Q : ProtoRW ρ'} (hoff : Q.offset = P.offset) :
    Q.ReadMsg { msg with Code := msg.Code + P.offset } = msg := by
  simp [ProtoRW.ReadMsg, hoff]

end Message

/-! ### The two ends of a connection -/

section Connection

variable {L : String → Nat → UInt64} {A : List (Protocol ρ)} {B : List (Protocol ρ')}

/-- The two ends build maps with the same names, versions and offsets. -/
theorem matchProtocols_agree (hA : ∀ p ∈ A, p.Length = L p.Name p.Version)
    (hB : ∀ p ∈ B, p.Length = L p.Name p.Version) :
    view (matchProtocols A (ourCaps B)) = view (matchProtocols B (ourCaps A)) := by
  funext n
  refine Option.ext fun x => ?_
  rw [view_matchProtocols_eq_some hA, view_matchProtocols_eq_some hB, common_comm]

/-- A message written through a matched protocol at one end is routed, at the
other end, to the protocol of the same name and read back as it was written. -/
theorem route_writeMsg (hA : ∀ p ∈ A, p.Length = L p.Name p.Version)
    (hB : ∀ p ∈ B, p.Length = L p.Name p.Version)
    (hfit : 16 + ((values (matchProtocols A (ourCaps B))).map
      fun P => P.Protocol.Length.toNat).sum < 2 ^ 64)
    {n : String} {P : ProtoRW ρ} (hP : (matchProtocols A (ourCaps B)).lookup n = some P)
    {msg : Msg} (hcode : msg.Code < P.Protocol.Length)
    {running : List (ProtoRW ρ')} (hrun : running.Perm (values (matchProtocols B (ourCaps A)))) :
    ∃ Q, (matchProtocols B (ourCaps A)).lookup n = some Q ∧ Q.Protocol.cap = P.Protocol.cap ∧
      P.WriteMsg msg = .ok { msg with Code := msg.Code + P.offset } ∧
      Peer.handle running { msg with Code := msg.Code + P.offset } =
        .ok (some (Q, { msg with Code := msg.Code + P.offset })) ∧
      Q.ReadMsg { msg with Code := msg.Code + P.offset } = msg := by
  have hPv : P ∈ values (matchProtocols A (ourCaps B)) := mem_values_iff.mpr ⟨n, hP⟩
  -- the other end holds the same capability at the same offset
  have hview : view (matchProtocols B (ourCaps A)) n = some P.slot := by
    rw [← matchProtocols_agree hA hB]
    simp [view, hP]
  obtain ⟨Q, hQ, hQP⟩ := Option.map_eq_some_iff.mp hview
  have hQv : Q ∈ values (matchProtocols B (ourCaps A)) := mem_values_iff.mpr ⟨n, hQ⟩
  have hlen : Q.Protocol.Length = P.Protocol.Length := by
    rw [length_of_mem_values hB hQv, length_of_mem_values hA hPv, hQP]
  have hoff : Q.offset = P.offset := congrArg Prod.snd hQP
  have hfitB : 16 + ((values (matchProtocols B (ourCaps A))).map
      fun P => P.Protocol.Length.toNat).sum < 2 ^ 64 := by
    rw [sum_values_comm hA hB]
    exact hfit
  -- the shifted code does not wrap around
  have hbound := range_bounds hA hfit hPv
  have hlt : msg.Code.toNat < P.Protocol.Length.toNat := UInt64.lt_iff_toNat_lt.mp hcode
  have hwire : (msg.Code + P.offset).toNat = msg.Code.toNat + P.offset.toNat :=
    toNat_add_of_lt (by omega)
  have hget : Peer.getProto running (msg.Code + P.offset) = .ok Q :=
    getProto_of_mem_range hB hfitB hrun hQ (by rw [hoff, hlen, hwire]; omega)
  have hbase : 16 ≤ (msg.Code + P.offset).toNat := by omega
  exact ⟨Q, hQ, congrArg Prod.fst hQP, writeMsg_of_lt hcode, handle_of_getProto hbase hget,
    readMsg_writeMsg hoff⟩

theorem matchProtocols_multiplex (A : List (Protocol ρ)) (B : List (Protocol ρ'))
    (L : String → Nat → UInt64)
    (hA : ∀ p ∈ A, p.Length = L p.Name p.Version) (hB : ∀ p ∈ B, p.Length = L p.Name p.Version)
    (hfit : 16 + ((values (matchProtocols A (ourCaps B))).map
      fun P => P.Protocol.Length.toNat).sum < 2 ^ 64) :
    view (matchProtocols A (ourCaps B)) = view (matchProtocols B (ourCaps A)) ∧
    (∀ n P, (matchProtocols A (ourCaps B)).lookup n = some P →
      P.Protocol ∈ A ∧ P.Protocol.Name = n ∧ P.Protocol.cap ∈ ourCaps B ∧
      ∀ d ∈ ourCaps A, d ∈ ourCaps B → d.Name = n → d.Version ≤ P.Protocol.Version) ∧
    (∀ c ∈ ourCaps A, c ∈ ourCaps B → ∃ P, (matchProtocols A (ourCaps B)).lookup c.Name = some P) ∧
    (∀ n n' P Q, (matchProtocols A (ourCaps B)).lookup n = some P →
      (matchProtocols A (ourCaps B)).lookup n' = some Q → n < n' →
      P.offset.toNat + P.Protocol.Length.toNat ≤ Q.offset.toNat) ∧
    (∀ k : Nat, (16 ≤ k ∧ k < 16 + ((values (matchProtocols A (ourCaps B))).map
        fun P => P.Protocol.Length.toNat).sum) ↔
      ∃ n P, (matchProtocols A (ourCaps B)).lookup n = some P ∧
        P.offset.toNat ≤ k ∧ k < P.offset.toNat + P.Protocol.Length.toNat) ∧
    (∀ n P msg, (matchProtocols A (ourCaps B)).lookup n = some P → msg.Code < P.Protocol.Length →
      ∀ running : List (ProtoRW ρ'), running.Perm (values (matchProtocols B (ourCaps A))) →
      ∃ Q, (matchProtocols B (ourCaps A)).lookup n = some Q ∧ Q.Protocol.cap = P.Protocol.cap ∧
        P.WriteMsg msg = .ok { msg with Code := msg.Code + P.offset } ∧
        Peer.handle running { msg with Code := msg.Code + P.offset } =
          .ok (some (Q, { msg with Code := msg.Code + P.offset })) ∧
        Q.ReadMsg { msg with Code := msg.Code + P.offset } = msg) := by
  refine ⟨matchProtocols_agree hA hB, ?_, ?_, fun n n' P Q => range_ordered hA hfit,
    range_cover hA hfit, fun n P msg hP hcode running hrun => route_writeMsg hA hB hfit hP hcode hrun⟩
  · intro n P hP
    obtain ⟨hmem, hname, hcommon⟩ := lookup_matchProtocols hA hP
    obtain ⟨⟨hB', -⟩, hmax⟩ := mem_common.mp hcommon
    exact ⟨hmem, hname, hB', fun d hdA hdB hdn => hmax d hdB hdA (hdn.trans hname.symm)⟩
  · intro c hcA hcB
    -- the highest version both have of `c`'s name is matched under that name
    obtain ⟨d, hd, hdc⟩ := exists_mem_common hcB hcA
    obtain ⟨P, hP, -⟩ := lookup_of_mem_common hA hd
    exact ⟨P, hdc ▸ hP⟩

theorem matchProtocols_multiplex_eth :
    16 + ((values (matchProtocols
        [(⟨"bzz", 0, 3, ()⟩ : Protocol Unit), ⟨"eth", 62, 8, ()⟩, ⟨"eth", 63, 17, ()⟩]
        (ourCaps [(⟨"eth", 62, 8, ()⟩ : Protocol Unit), ⟨"eth", 63, 17, ()⟩, ⟨"shh", 2, 2, ()⟩]))).map
        fun P => P.Protocol.Length.toNat).sum < 2 ^ 64 ∧
    view (matchProtocols
        [(⟨"bzz", 0, 3, ()⟩ : Protocol Unit), ⟨"eth", 62, 8, ()⟩, ⟨"eth", 63, 17, ()⟩]
        (ourCaps [(⟨"eth", 62, 8, ()⟩ : Protocol Unit), ⟨"eth", 63, 17, ()⟩, ⟨"shh", 2, 2, ()⟩])) =
      view (matchProtocols
        [(⟨"eth", 62, 8, ()⟩ : Protocol Unit), ⟨"eth", 63, 17, ()⟩, ⟨"shh", 2, 2, ()⟩]
        (ourCaps [(⟨"bzz", 0, 3, ()⟩ : Protocol Unit), ⟨"eth", 62, 8, ()⟩, ⟨"eth", 63, 17, ()⟩])) := by
  have hfit : 16 + ((values (matchProtocols
      [(⟨"bzz", 0, 3, ()⟩ : Protocol Unit), ⟨"eth", 62, 8, ()⟩, ⟨"eth", 63, 17, ()⟩]
      (ourCaps [(⟨"eth", 62, 8, ()⟩ : Protocol Unit), ⟨"eth", 63, 17, ()⟩, ⟨"shh", 2, 2, ()⟩]))).map
      fun P => P.Protocol.Length.toNat).sum < 2 ^ 64 := by
    rw [matchProtocols, matchLoop, sortCaps_eq_self (by decide)]
    decide
  exact ⟨hfit, (matchProtocols_multiplex _ _
    (fun n v => if n = "bzz" then 3 else if n = "shh" then 2 else if v = 62 then 8 else 17)
    (by decide) (by decide) hfit).1⟩

/-- Past 64 bits the code space wraps around: a protocol of length
`2^64 - 16`, matched at offset 16, has the range `[16, 0)` in `getProto`'s
arithmetic, and the first message written through it is out of range at the
other end. -/
theorem matchProtocols_code_space_wraps :
    let A : List (Protocol Unit) := [⟨"eth", 63, 18446744073709551600, ()⟩]
    let running := values (matchProtocols A (ourCaps A))
    ∃ P ∈ running, P.WriteMsg ⟨0, []⟩ = .ok ⟨16, []⟩ ∧
      Peer.handle running ⟨16, []⟩ = .error (.msgCodeOutOfRange 16) := by
  intro A running
  have hrun : running = [⟨16, ⟨"eth", 63, 18446744073709551600, ()⟩⟩] := by
    simp only [running, matchProtocols, matchLoop, A, ourCaps, List.map, sortCaps,
      List.mergeSort_singleton]
    rfl
  refine ⟨⟨16, ⟨"eth", 63, 18446744073709551600, ()⟩⟩, by simp [hrun], rfl, ?_⟩
  rw [hrun]
  rfl

end Connection

end GoEthereum.P2p
