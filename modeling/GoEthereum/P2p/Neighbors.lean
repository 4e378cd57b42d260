import GoEthereum.Rlp.Value

/-!
The reply of discovery to findnode (p2p/discover/udp.go): `findnode.handle`
sends the closest nodes of the table to the requester in `neighbors`
packets, skipping those whose address `CheckRelayIP` refuses to relay, and
cuts the reply into packets of at most `maxNeighbors` nodes (12, what the
package's init finds, `maxNeighbors_eq`) so that each stays below the 1280
bytes of a discovery packet.

A node skipped at the last index is skipped before the flush, so the packet
being filled is never sent (`findnode_drops_unflushed`): the last
`count % maxNeighbors` relayable nodes never go out. What does go out fits:
at most `maxNeighbors` nodes and at most 1205 bytes a packet
(`findnodeHandle_packets_fit`).
-/

namespace GoEthereum.P2p.Discover

open GoEthereum.Rlp GoEthereum.BigEndian

/-- rpcNode; a NodeID is 64 bytes. -/
structure rpcNode where
  IP : List UInt8
  UDP : UInt16
  TCP : UInt16
  ID : List UInt8
  length_ID : ID.length = 64

/-- neighbors, whose `Rest` tail is empty when it is sent. -/
structure neighbors where
  Nodes : List rpcNode
  Expiration : UInt64

/-- The RLP value of an rpcNode: the address, the ports as unsigned
integers, and the ID. -/
def rpcNode.toValue (n : rpcNode) : Value :=
  .list [.bytes n.IP, .bytes (minimal n.UDP.toNat), .bytes (minimal n.TCP.toNat), .bytes n.ID]

def neighbors.toValue (p : neighbors) : Value :=
  .list [.list (p.Nodes.map rpcNode.toValue), .bytes (minimal p.Expiration.toNat)]

def macSize : Nat := 256 / 8
def sigSize : Nat := 520 / 8
def headSize : Nat := macSize + sigSize

/-- The size of what encodePacket returns: the space for the hash and the
signature, the packet type, and the RLP of the packet. -/
def packetSize (p : neighbors) : Nat := headSize + 1 + p.toValue.rlp.length

/-! ### maxNeighbors -/

def maxSizeNode : rpcNode := ⟨List.replicate 16 0, 65535, 65535, List.replicate 64 0, rfl⟩

/-- The loop of init, with `fuel` rounds: `n` and the nodes of the packet
so far. -/
def initLoop : Nat → Nat → List rpcNode → Option Nat
  | 0, _, _ => none
  | fuel + 1, n, nodes =>
    let p : neighbors := ⟨nodes ++ [maxSizeNode], 0xFFFFFFFFFFFFFFFF⟩
    if headSize + p.toValue.rlp.length + 1 ≥ 1280 then some n
    else initLoop fuel (n + 1) (nodes ++ [maxSizeNode])

/-- maxNeighbors; the loop of init ends long before 1280 rounds, each of
which adds a node to the packet. -/
def maxNeighbors : Nat := (initLoop 1280 0 []).getD 0

/-! ### Sizes -/

theorem headSize_eq : headSize = 97 := rfl

/-- A node with an address of at most 16 bytes takes at most 91 bytes. -/
theorem length_rlp_node_le (n : rpcNode) (hip : n.IP.length ≤ 16) : n.toValue.rlp.length ≤ 91 := by
  have hIP := length_rlpBytes_le hip
  have hUDP := length_rlpBytes_le (length_minimal_le (n := 2) (by simpa using n.UDP.toNat_lt))
  have hTCP := length_rlpBytes_le (length_minimal_le (n := 2) (by simpa using n.TCP.toNat_lt))
  have hID := length_rlpBytes_le n.length_ID.le
  rw [length_lengthPrefix_of_lt_56 _ (by norm_num)] at hIP hUDP hTCP
  rw [length_lengthPrefix_of_lt_256 _ (by norm_num) (by norm_num)] at hID
  -- the four fields take at most 17, 3, 3 and 66 bytes
  have hpayload : (Value.rlpList [.bytes n.IP, .bytes (minimal n.UDP.toNat), .bytes (minimal n.TCP.toNat),
      .bytes n.ID]).length ≤ 89 := by
    simp only [rlpList_cons, rlpList_nil, rlp_bytes, List.length_append, List.length_nil]
    omega
  have hnode := length_rlp_list_le hpayload
  rw [length_lengthPrefix_of_lt_256 _ (by norm_num) (by norm_num)] at hnode
  exact hnode

/-- A packet of at most 12 nodes, each with an address of at most 16
bytes, takes at most 1107 bytes. -/
theorem length_rlp_neighbors_le (p : neighbors) (hk : p.Nodes.length ≤ 12)
    (hip : ∀ n ∈ p.Nodes, n.IP.length ≤ 16) : p.toValue.rlp.length ≤ 1107 := by
  have hnodes : (Value.rlpList (p.Nodes.map rpcNode.toValue)).length ≤ 1092 := by
    have hle := @length_rlpList_le (p.Nodes.map rpcNode.toValue) 91 (by
      intro v hv
      obtain ⟨n, hn, rfl⟩ := List.mem_map.mp hv
      exact length_rlp_node_le n (hip n hn))
    rw [List.length_map] at hle
    omega
  have hlist := length_rlp_list_le hnodes
  rw [length_lengthPrefix_of_lt_65536 _ (by norm_num) (by norm_num)] at hlist
  have hexp := length_rlpBytes_le (length_minimal_le (n := 8) (by simpa using p.Expiration.toNat_lt))
  rw [length_lengthPrefix_of_lt_56 _ (by norm_num)] at hexp
  -- the node list takes at most 1095 bytes and the expiration at most 9
  have hpayload : (Value.rlpList [.list (p.Nodes.map rpcNode.toValue),
      .bytes (minimal p.Expiration.toNat)]).length ≤ 1104 := by
    simp only [rlpList_cons, rlpList_nil, rlp_bytes, List.length_append, List.length_nil]
    omega
  have hpacket := length_rlp_list_le hpayload
  rw [length_lengthPrefix_of_lt_65536 _ (by norm_num) (by norm_num)] at hpacket
  exact hpacket

/-- Such a packet, framed, is at most 1205 bytes. -/
theorem packetSize_le (p : neighbors) (hk : p.Nodes.length ≤ 12)
    (hip : ∀ n ∈ p.Nodes, n.IP.length ≤ 16) : packetSize p ≤ 1205 := by
  have := length_rlp_neighbors_le p hk hip
  rw [packetSize, headSize_eq]
  omega

theorem length_rlpList_replicate (k : Nat) (v : Value) :
    (Value.rlpList (List.replicate k v)).length = k * v.rlp.length := by
  induction k with
  | zero => simp
  | succ k ih =>
    rw [List.replicate_succ, rlpList_cons, List.length_append, ih, Nat.succ_mul]
    omega

theorem length_rlp_maxSizeNode : maxSizeNode.toValue.rlp.length = 91 := by
  have hport : minimal 65535 = BigEndian.bytes 2 65535 := by
    rw [minimal, if_neg (by norm_num), width_eq_of_bounds 65535 2 (by norm_num) (by norm_num) (by norm_num)]
  have hID : (rlpBytes (List.replicate 64 0)).length = 66 := by
    rw [rlpBytes, if_neg (by decide), List.length_append,
      length_lengthPrefix_of_lt_256 _ (by simp) (by simp), List.length_replicate]
  have hpayload : (Value.rlpList [.bytes maxSizeNode.IP, .bytes (minimal maxSizeNode.UDP.toNat),
      .bytes (minimal maxSizeNode.TCP.toNat), .bytes maxSizeNode.ID]).length = 89 := by
    show (Value.rlpList [.bytes (List.replicate 16 0), .bytes (minimal 65535),
      .bytes (minimal 65535), .bytes (List.replicate 64 0)]).length = 89
    simp only [rlpList_cons, rlpList_nil, rlp_bytes, List.length_append, List.length_nil, hID, hport]
    decide
  rw [rpcNode.toValue, rlp_list, List.length_append, hpayload,
    length_lengthPrefix_of_lt_256 _ (by norm_num) (by norm_num)]

/-- Thirteen nodes of the largest size take more than the room. -/
theorem length_rlp_thirteen_ge (expiration : UInt64) :
    1183 ≤ (⟨List.replicate 13 maxSizeNode, expiration⟩ : neighbors).toValue.rlp.length := by
  have hnodes : (Value.rlpList ((List.replicate 13 maxSizeNode).map rpcNode.toValue)).length = 1183 := by
    rw [List.map_replicate, length_rlpList_replicate, length_rlp_maxSizeNode]
  rw [neighbors.toValue, rlp_list, List.length_append, rlpList_cons, List.length_append, rlp_list,
    List.length_append, hnodes]
  omega

/-- From `k` nodes of the largest size on, the loop of init stops at 12. -/
theorem initLoop_replicate (fuel k : Nat) (hk : k ≤ 12) (hfuel : 12 - k < fuel) :
    initLoop fuel k (List.replicate k maxSizeNode) = some 12 := by
  -- on the fuel: each round adds one node, and the thirteenth is too many
  induction fuel generalizing k with
  | zero => omega
  | succ fuel ih =>
    rw [initLoop, ← List.replicate_succ']
    by_cases h12 : k = 12
    · subst h12
      have := length_rlp_thirteen_ge 0xFFFFFFFFFFFFFFFF
      simp only [Nat.reduceAdd] at this ⊢
      rw [if_pos (by rw [headSize_eq]; omega)]
    · have hle := length_rlp_neighbors_le ⟨List.replicate (k + 1) maxSizeNode, 0xFFFFFFFFFFFFFFFF⟩
        (by simp only [List.length_replicate]; omega)
        (fun n hn => by rw [List.eq_of_mem_replicate hn]; decide)
      rw [if_neg (by rw [headSize_eq]; omega)]
      exact ih (k + 1) (by omega) (by omega)

theorem maxNeighbors_eq : maxNeighbors = 12 := by
  rw [maxNeighbors, ← List.replicate_zero, initLoop_replicate 1280 0 (by norm_num) (by norm_num)]
  rfl

/-! ### The relay check and the loop of findnode.handle -/

inductive RelayError where
  | invalid
  | unspecified
  | special
  | loopback
  | lan
  deriving DecidableEq, Repr

/-- The classes of addresses that CheckRelayIP asks about. -/
structure AddrClass where
  IsUnspecified : List UInt8 → Bool
  IsSpecialNetwork : List UInt8 → Bool
  IsLoopback : List UInt8 → Bool
  IsLAN : List UInt8 → Bool

def CheckRelayIP (K : AddrClass) (sender addr : List UInt8) : Option RelayError :=
  if addr.length ≠ 4 ∧ addr.length ≠ 16 then some .invalid
  else if K.IsUnspecified addr then some .unspecified
  else if K.IsSpecialNetwork addr then some .special
  else if K.IsLoopback addr ∧ !K.IsLoopback sender then some .loopback
  else if K.IsLAN addr ∧ !K.IsLAN sender then some .lan
  else none

section Loop

variable (K : AddrClass) (maxNeighbors : Nat) (sender : List UInt8)

/-- Whether the loop keeps a node: CheckRelayIP lets it through. -/
def relayable (n : rpcNode) : Bool := (CheckRelayIP K sender n.IP).isNone

/-- The loop of findnode.handle from index `i` on, with the nodes of the
packet being filled: the node lists of the packets it sends, and what is
left in the packet when it ends. `last` is `len(closest) - 1`. -/
def findnodeLoop (last : Nat) : Nat → List rpcNode → List rpcNode → List (List rpcNode) × List rpcNode
  | _, [], nodes => ([], nodes)
  | i, n :: rest, nodes =>
    if relayable K sender n = false then findnodeLoop last (i + 1) rest nodes
    else
      let nodes := nodes ++ [n]
      if nodes.length = maxNeighbors ∨ i = last then
        let sent := findnodeLoop last (i + 1) rest []
        (nodes :: sent.1, sent.2)
      else findnodeLoop last (i + 1) rest nodes

/-- The node lists of the packets findnode.handle sends for the closest
nodes. -/
def findnodeSends (closest : List rpcNode) : List (List rpcNode) :=
  (findnodeLoop K maxNeighbors sender (closest.length - 1) 0 closest []).1

/-- The loop loses no node: what it sends, then what is left in the last
packet, is the packet it started with and the relayable nodes in order. -/
theorem findnodeLoop_flatten (last i : Nat) (rest nodes : List rpcNode) :
    (findnodeLoop K maxNeighbors sender last i rest nodes).1.flatten ++
        (findnodeLoop K maxNeighbors sender last i rest nodes).2 =
      nodes ++ rest.filter (relayable K sender) := by
  -- on the nodes still to visit, from any index and any packet
  induction rest generalizing i nodes with
  | nil => simp [findnodeLoop]
  | cons n rest ih =>
    by_cases hrelay : relayable K sender n = false
    · simp only [findnodeLoop, hrelay, if_true, List.filter_cons, Bool.false_eq_true, if_false, ih]
    · have hkeep : relayable K sender n = true := by simpa using hrelay
      rw [findnodeLoop, if_neg hrelay, List.filter_cons_of_pos hkeep]
      dsimp only
      split_ifs
      · simp only [List.flatten_cons, List.append_assoc, List.cons_append, ih, List.nil_append]
      · rw [ih, List.append_assoc, List.singleton_append]

/-- Each packet holds between one and `maxNeighbors` nodes, and so does
what is left at the end, from a packet with fewer. -/
theorem findnodeLoop_packets (hmax : 0 < maxNeighbors) (last i : Nat) (rest nodes : List rpcNode)
    (hnodes : nodes.length < maxNeighbors) :
    (∀ packet ∈ (findnodeLoop K maxNeighbors sender last i rest nodes).1,
      0 < packet.length ∧ packet.length ≤ maxNeighbors) ∧
      (findnodeLoop K maxNeighbors sender last i rest nodes).2.length < maxNeighbors := by
  -- the packet being filled stays below the bound between steps
  induction rest generalizing i nodes with
  | nil => simpa [findnodeLoop] using hnodes
  | cons n rest ih =>
    by_cases hrelay : relayable K sender n = false
    · simp only [findnodeLoop, hrelay, if_true]
      exact ih (i + 1) nodes hnodes
    · rw [findnodeLoop, if_neg hrelay]
      dsimp only
      split_ifs with hflush
      · obtain ⟨hsent, hleft⟩ := ih (i + 1) [] hmax
        refine ⟨?_, hleft⟩
        intro packet hpacket
        rcases List.mem_cons.mp hpacket with rfl | hmem
        · simp only [List.length_append, List.length_singleton]
          omega
        · exact hsent packet hmem
      · have hlen : (nodes ++ [n]).length < maxNeighbors := by
          simp only [List.length_append, List.length_singleton] at hflush ⊢
          omega
        exact ih (i + 1) (nodes ++ [n]) hlen

/-- Before the last index every packet is sent full: the packets hold a
multiple of `maxNeighbors` nodes when the loop does not reach its last
index with a relayable node. -/
theorem findnodeLoop_full (last i : Nat) (rest nodes : List rpcNode)
    (hlast : ∀ j n, rest[j]? = some n → i + j = last → relayable K sender n = false) :
    ∀ packet ∈ (findnodeLoop K maxNeighbors sender last i rest nodes).1,
      packet.length = maxNeighbors := by
  induction rest generalizing i nodes with
  | nil => simp [findnodeLoop]
  | cons n rest ih =>
    have hlast' : ∀ j m, rest[j]? = some m → i + 1 + j = last → relayable K sender m = false :=
      fun j m hj hij => hlast (j + 1) m (by simpa using hj) (by omega)
    by_cases hrelay : relayable K sender n = false
    · simp only [findnodeLoop, hrelay, if_true]
      exact ih (i + 1) nodes hlast'
    · rw [findnodeLoop, if_neg hrelay]
      dsimp only
      split_ifs with hflush
      · intro packet hpacket
        rcases List.mem_cons.mp hpacket with rfl | hmem
        · rcases hflush with hfull | hi
          · exact hfull
          · exact absurd (hlast 0 n rfl (by omega)) hrelay
        · exact ih (i + 1) [] hlast' packet hmem
      · exact ih (i + 1) (nodes ++ [n]) hlast'

/-- Only relayable nodes are sent. -/
theorem relayable_of_mem_findnodeSends (closest : List rpcNode) {packet : List rpcNode} {n : rpcNode}
    (hpacket : packet ∈ findnodeSends K maxNeighbors sender closest) (hn : n ∈ packet) :
    relayable K sender n = true := by
  have hflat := findnodeLoop_flatten K maxNeighbors sender (closest.length - 1) 0 closest []
  have hmem : n ∈ closest.filter (relayable K sender) := by
    rw [← List.nil_append (closest.filter _), ← hflat]
    exact List.mem_append_left _ (List.mem_flatten.mpr ⟨packet, hpacket, hn⟩)
  exact (List.mem_filter.mp hmem).2

/-- When the last of the closest nodes is not relayable, the loop never
reaches its last index with a packet to flush: what it sends is the
relayable nodes up to the last multiple of `maxNeighbors`. -/
theorem flatten_findnodeSends_of_getLast (hmax : 0 < maxNeighbors) (closest : List rpcNode) {n : rpcNode}
    (hlast : closest.getLast? = some n) (hskip : relayable K sender n = false) :
    (findnodeSends K maxNeighbors sender closest).flatten =
      (closest.filter (relayable K sender)).take
        ((closest.filter (relayable K sender)).length -
          (closest.filter (relayable K sender)).length % maxNeighbors) := by
  rcases hrun : findnodeLoop K maxNeighbors sender (closest.length - 1) 0 closest [] with ⟨sent, left⟩
  have hflat := findnodeLoop_flatten K maxNeighbors sender (closest.length - 1) 0 closest []
  have hfull := findnodeLoop_full K maxNeighbors sender (closest.length - 1) 0 closest [] (by
    intro j m hj hij
    rw [List.getLast?_eq_getElem?, ← hij, Nat.zero_add, hj] at hlast
    rwa [Option.some_inj.mp hlast])
  have hleft := (findnodeLoop_packets K maxNeighbors sender hmax (closest.length - 1) 0 closest []
    (by rwa [List.length_nil])).2
  rw [hrun, List.nil_append] at hflat
  rw [hrun] at hfull hleft
  dsimp only at hflat hfull hleft
  -- full packets: the sent nodes are a multiple of maxNeighbors, the rest fewer
  have hsent : sent.flatten.length = sent.length * maxNeighbors := by
    simp [List.length_flatten, List.map_congr_left hfull]
  have hcount : (closest.filter (relayable K sender)).length = sent.length * maxNeighbors + left.length := by
    rw [← hflat, List.length_append, hsent]
  have hmod : (closest.filter (relayable K sender)).length % maxNeighbors = left.length := by
    rw [hcount, Nat.mul_add_mod_self_right, Nat.mod_eq_of_lt hleft]
  rw [findnodeSends, hrun, hmod, ← hflat, List.length_append, Nat.add_sub_cancel]
  exact (List.take_left' rfl).symm

end Loop

/-! ### findnode.handle -/

inductive HandleError where
  | errExpired
  | errUnknownNode
  deriving DecidableEq, Repr

/-- findnode.handle past the lookup of the table: `isExpired` is
expired(req.Expiration), `bonded` whether the database knows the sender,
`closest` what t.closest returns for the target, and `expiration` that of
the reply; the packets it sends. -/
def findnodeHandle (K : AddrClass) (isExpired bonded : Bool) (sender : List UInt8)
    (closest : List rpcNode) (expiration : UInt64) : Except HandleError (List neighbors) :=
  if isExpired then .error .errExpired
  else if !bonded then .error .errUnknownNode
  else .ok ((findnodeSends K maxNeighbors sender closest).map (fun nodes => ⟨nodes, expiration⟩))

theorem IP_length_of_relayable {K : AddrClass} {sender : List UInt8} {n : rpcNode}
    (h : relayable K sender n = true) : n.IP.length ≤ 16 := by
  by_contra hlong
  have hinvalid : CheckRelayIP K sender n.IP = some .invalid := by
    rw [CheckRelayIP, if_pos (by omega)]
  simp [relayable, hinvalid] at h

/-- Every packet findnode.handle sends holds at most `maxNeighbors` nodes and
is at most 1280 bytes. -/
theorem findnodeHandle_packets_fit (K : AddrClass) (isExpired bonded : Bool) (sender : List UInt8)
    (closest : List rpcNode) (expiration : UInt64) {packets : List neighbors}
    (h : findnodeHandle K isExpired bonded sender closest expiration = .ok packets) :
    ∀ p ∈ packets, p.Nodes.length ≤ maxNeighbors ∧ packetSize p ≤ 1280 := by
  unfold findnodeHandle at h
  split_ifs at h
  obtain rfl := Except.ok.inj h
  intro p hp
  obtain ⟨nodes, hnodes, rfl⟩ := List.mem_map.mp hp
  have hbound := (findnodeLoop_packets K maxNeighbors sender (by rw [maxNeighbors_eq]; norm_num)
    (closest.length - 1) 0 closest [] (by rw [List.length_nil, maxNeighbors_eq]; norm_num)).1 nodes hnodes
  have hsize := packetSize_le ⟨nodes, expiration⟩ (by rw [← maxNeighbors_eq]; exact hbound.2)
    (fun n hn => IP_length_of_relayable (relayable_of_mem_findnodeSends K maxNeighbors sender closest hnodes hn))
  exact ⟨hbound.2, by omega⟩

theorem findnode_drops_unflushed (K : AddrClass) (sender : List UInt8) (closest : List rpcNode)
    (expiration : UInt64) {n : rpcNode} (hlast : closest.getLast? = some n)
    (hskip : relayable K sender n = false) :
    ∃ packets, findnodeHandle K false true sender closest expiration = .ok packets ∧
      (packets.map neighbors.Nodes).flatten =
        (closest.filter (relayable K sender)).take
          ((closest.filter (relayable K sender)).length -
            (closest.filter (relayable K sender)).length % maxNeighbors) := by
  refine ⟨_, rfl, ?_⟩
  simp only [List.map_map, Function.comp_def, List.map_id']
  exact flatten_findnodeSends_of_getLast K maxNeighbors sender (by rw [maxNeighbors_eq]; norm_num) closest hlast hskip

/-- Addresses of a test network: all zeroes is unspecified and 127.x is
loopback. -/
def testClass : AddrClass where
  IsUnspecified ip := ip.all (· == 0)
  IsSpecialNetwork _ := false
  IsLoopback ip := ip.head? == some 127
  IsLAN _ := false

def testNode (ip : List UInt8) : rpcNode := ⟨ip, 30303, 30303, List.replicate 64 0, List.length_replicate⟩

/-- A requester at 8.8.8.8 asks for the nodes 1.2.3.4 and 127.0.0.1: the
second is not relayed, and the first, which is, is never sent. -/
theorem findnode_drops_unflushed_loopback :
    (∃ packets, findnodeHandle testClass false true [8, 8, 8, 8]
        [testNode [1, 2, 3, 4], testNode [127, 0, 0, 1]] 0 = .ok packets ∧
      (packets.map neighbors.Nodes).flatten =
        ([testNode [1, 2, 3, 4], testNode [127, 0, 0, 1]].filter (relayable testClass [8, 8, 8, 8])).take
          (([testNode [1, 2, 3, 4], testNode [127, 0, 0, 1]].filter (relayable testClass [8, 8, 8, 8])).length -
            ([testNode [1, 2, 3, 4], testNode [127, 0, 0, 1]].filter
              (relayable testClass [8, 8, 8, 8])).length % maxNeighbors)) ∧
      findnodeHandle testClass false true [8, 8, 8, 8] [testNode [1, 2, 3, 4], testNode [127, 0, 0, 1]] 0 =
        .ok [] ∧
      [testNode [1, 2, 3, 4], testNode [127, 0, 0, 1]].filter (relayable testClass [8, 8, 8, 8]) =
        [testNode [1, 2, 3, 4]] :=
  ⟨findnode_drops_unflushed testClass [8, 8, 8, 8] [testNode [1, 2, 3, 4], testNode [127, 0, 0, 1]] 0 rfl rfl,
    by rw [findnodeHandle, findnodeSends, maxNeighbors_eq]; rfl, rfl⟩

end GoEthereum.P2p.Discover
