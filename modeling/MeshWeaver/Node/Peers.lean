import Mathlib.Data.Finset.Card
import Mathlib.Data.Finset.Image
import MeshWeaver.Lib.Files
import MeshWeaver.Lib.Run
import MeshWeaver.Raft.Engine

/-!
# The peers of a node

`MeshNode._get_active_peers_for_consensus` merges the addresses of the peer loads and the neighbours of the
`GossipManager` and of the contacts of the `RoutingTable`. The tables are kept by node id and merged by address. A
heartbeat has the port that its sender was configured with, a datagram the one that it is bound to.
-/

namespace MeshWeaver

open Lib

/-! ### Node ids -/

/-- `NodeID`: its bytes. -/
structure NodeID where
  bytes : List UInt8
deriving DecidableEq

namespace NodeID

def hexDigits : Text := "0123456789abcdef".toList

def hex (id : NodeID) : String :=
  .ofList (id.bytes.flatMap fun byte =>
    [hexDigits.getD (byte.toNat / 16) '0', hexDigits.getD (byte.toNat % 16) '0'])

/-- `bytes.fromhex(text)`, where blanks may stand between the bytes. -/
def fromHex : Text → Option (List UInt8)
  | [] => some []
  | c :: rest =>
    if c.isWhitespace || c = '\x0b' || c = '\x0c' then fromHex rest
    else
      match rest with
      | [] => none
      | d :: rest =>
        if c ∈ hexDigits ∧ d ∈ hexDigits then
          (fromHex rest).map (.ofNat (hexDigits.idxOf c * 16 + hexDigits.idxOf d) :: ·)
        else none

/-- `NodeID(value)` of a text; `none` where it raises. -/
def ofString (value : String) : Option NodeID :=
  let cleanHex := (Files.strip value.toList).map Char.toLower
  if cleanHex.length = 40 then (fromHex cleanHex).map NodeID.mk else none

def int (id : NodeID) : Nat := id.bytes.foldl (fun n byte => n * 256 + byte.toNat) 0

def distance (id other : NodeID) : Nat := id.int ^^^ other.int

end NodeID

/-! ### The routing table -/

structure NodeInfo where
  nodeId : NodeID
  ip : String
  udpPort : Nat
  tcpPort : Option Nat

structure KBucket where
  contacts : List NodeInfo
  replacementCache : List NodeInfo

/-- `bucket.add(node_info)` of a bucket for `k` contacts -/
def KBucket.add (k : Nat) (bucket : KBucket) (info : NodeInfo) : KBucket :=
  let same (contact : NodeInfo) : Bool := contact.nodeId = info.nodeId
  if bucket.contacts.any same then { bucket with contacts := bucket.contacts.eraseP same ++ [info] }
  else if bucket.contacts.length < k then { bucket with contacts := bucket.contacts ++ [info] }
  else
    let cache := bucket.replacementCache.eraseP same ++ [info]
    { bucket with replacementCache := if cache.length > k then cache.drop 1 else cache }

theorem KBucket.mem_contacts_add {k : Nat} {bucket : KBucket} {info contact : NodeInfo}
    (h : contact ∈ (bucket.add k info).contacts) : contact ∈ bucket.contacts ∨ contact = info := by
  unfold KBucket.add at h
  dsimp only at h
  split_ifs at h
  · rw [List.mem_append, List.mem_singleton] at h
    exact h.imp_left List.mem_of_mem_eraseP
  · rwa [List.mem_append, List.mem_singleton] at h
  all_goals exact Or.inl h

structure RoutingTable where
  nodeId : NodeID
  k : Nat
  buckets : List KBucket

namespace RoutingTable

def new (nodeId : NodeID) (k : Nat) : RoutingTable := ⟨nodeId, k, List.replicate 160 ⟨[], []⟩⟩

def getBucketIndex (table : RoutingTable) (nodeId : NodeID) : Nat :=
  let dist := table.nodeId.distance nodeId
  if dist = 0 then 0 else min dist.log2 159

def addContact (table : RoutingTable) (info : NodeInfo) : RoutingTable :=
  if info.nodeId = table.nodeId then table
  else
    { table with
      buckets := table.buckets.modify (table.getBucketIndex info.nodeId) fun bucket => bucket.add table.k info }

def contacts (table : RoutingTable) : List NodeInfo := table.buckets.flatMap KBucket.contacts

end RoutingTable

/-! ### Gossip -/

structure PeerLoadSnapshot where
  nodeId : String
  ip : String
  udpPort : Nat
  tcpPort : Nat
  cpuPercent : Rat
  ramPercent : Rat
  timestamp : Rat

/-- The payload that `build_heartbeat` makes. -/
structure Heartbeat where
  senderId : String
  ip : String
  udpPort : Nat
  tcpPort : Nat
  cpuPercent : Rat
  ramPercent : Rat
  timestamp : Rat

structure GossipManager where
  nodeId : String
  host : String
  udpPort : Nat
  deadNodeTimeout : Rat
  peerLoads : Dict String PeerLoadSnapshot
  neighbors : Dict String Address

namespace GossipManager

variable (g : GossipManager)

/-- `d.setdefault(k, v)` -/
def setDefault {β : Type} (d : Dict String β) (k : String) (v : β) : Dict String β :=
  if (d.get? k).isSome then d else d.insert k v

def registerNeighbor (now : Rat) (nodeId host : String) (udpPort : Nat) (tcpPort : Option Nat) :
    GossipManager :=
  { g with
    neighbors := g.neighbors.insert nodeId ⟨host, udpPort⟩
    peerLoads := setDefault g.peerLoads nodeId
      { nodeId, ip := host, udpPort, tcpPort := tcpPort.getD (udpPort + 1), cpuPercent := 0, ramPercent := 0,
        timestamp := now } }

/-- `build_heartbeat()`; a `GossipManager` has no attribute `tcp_port`. -/
def buildHeartbeat (cpuPercent ramPercent now : Rat) : Heartbeat :=
  { senderId := g.nodeId, ip := g.host, udpPort := g.udpPort, tcpPort := g.udpPort + 1, cpuPercent, ramPercent,
    timestamp := now }

def receiveHeartbeat (payload : Heartbeat) : GossipManager :=
  if payload.senderId = "" then g
  else
    { g with
      peerLoads := g.peerLoads.insert payload.senderId
        { nodeId := payload.senderId, ip := payload.ip, udpPort := payload.udpPort, tcpPort := payload.tcpPort,
          cpuPercent := payload.cpuPercent, ramPercent := payload.ramPercent, timestamp := payload.timestamp }
      neighbors := setDefault g.neighbors payload.senderId ⟨payload.ip, payload.udpPort⟩ }

def expireDeadNodes (now : Rat) : GossipManager :=
  let isDead (snapshot : PeerLoadSnapshot) : Bool := now - snapshot.timestamp > g.deadNodeTimeout
  let dead := (g.peerLoads.filterValues isDead).keys
  { g with
    peerLoads := dead.foldl Dict.erase g.peerLoads
    neighbors := dead.foldl Dict.erase g.neighbors }

end GossipManager

/-! ### The node -/

/-- What a `MeshNode` that was started knows of itself and of others. -/
structure MeshPeers where
  nodeId : NodeID
  host : String
  boundUdpPort : Nat
  gossip : GossipManager
  routingTable : RoutingTable

namespace MeshPeers

/-- `MeshNode(host, udp_port, node_id=node_id, k=k)`, bound to a port. -/
def new (host : String) (udpPort boundUdpPort : Nat) (nodeId : NodeID) (k : Nat) : MeshPeers :=
  { nodeId, host, boundUdpPort
    gossip :=
      { nodeId := nodeId.hex, host, udpPort, deadNodeTimeout := 15, peerLoads := .empty, neighbors := .empty }
    routingTable := .new nodeId k }

variable (n : MeshPeers)

def address : Address := ⟨n.host, n.boundUdpPort⟩

/-- `_get_active_peers_for_consensus()`: a set, listed in any order. -/
def getActivePeersForConsensus : Finset Address :=
  let peers := n.gossip.peerLoads.values.map (fun p => ⟨p.ip, p.udpPort⟩) ++ n.gossip.neighbors.values ++
    n.routingTable.contacts.map fun contact => ⟨contact.ip, contact.udpPort⟩
  (peers.filter fun peer => peer ≠ n.address).toFinset

/-- The part of `datagram_received` that refreshes the sender's contact; a sender id that is none is
ignored. -/
def refreshContact (senderId : String) (senderUdpPort senderTcpPort : Nat) (addr : Address) : MeshPeers :=
  match NodeID.ofString senderId with
  | none => n
  | some nodeId =>
    { n with
      routingTable := n.routingTable.addContact
        { nodeId, ip := addr.host, udpPort := if senderUdpPort > 0 then senderUdpPort else addr.port,
          tcpPort := if senderTcpPort > 0 then some senderTcpPort else none } }

inductive PeerEvent where
  | registerNeighbor (now : Rat) (nodeId host : String) (udpPort : Nat) (tcpPort : Option Nat)
  | receiveHeartbeat (payload : Heartbeat)
  | expireDeadNodes (now : Rat)
  | datagramReceived (senderId : String) (senderUdpPort senderTcpPort : Nat) (addr : Address)

def step : PeerEvent → MeshPeers
  | .registerNeighbor now nodeId host udpPort tcpPort =>
    { n with gossip := n.gossip.registerNeighbor now nodeId host udpPort tcpPort }
  | .receiveHeartbeat payload => { n with gossip := n.gossip.receiveHeartbeat payload }
  | .expireDeadNodes now => { n with gossip := n.gossip.expireDeadNodes now }
  | .datagramReceived senderId senderUdpPort senderTcpPort addr =>
    n.refreshContact senderId senderUdpPort senderTcpPort addr

def after (events : List PeerEvent) : MeshPeers := run step n events

/-- The addresses in the three tables, each with the id of its node. -/
def records : List (String × Address) :=
  n.gossip.peerLoads.items.map (fun item => (item.1, ⟨item.2.ip, item.2.udpPort⟩)) ++
    n.gossip.neighbors.items ++
    n.routingTable.contacts.map fun contact => (contact.nodeId.hex, ⟨contact.ip, contact.udpPort⟩)

def knownIds : Finset String := (n.records.map Prod.fst).toFinset.erase n.nodeId.hex

/-! ### One address for each node -/

structure Agrees (n : MeshPeers) (book : String → Address) : Prop where
  loads : ∀ item ∈ n.gossip.peerLoads.items, ⟨item.2.ip, item.2.udpPort⟩ = book item.1
  neighbors : ∀ item ∈ n.gossip.neighbors.items, item.2 = book item.1
  contacts : ∀ contact ∈ n.routingTable.contacts, ⟨contact.ip, contact.udpPort⟩ = book contact.nodeId.hex

/-- The event gives the address of the book for its node. -/
def PeerEvent.Truthful (book : String → Address) : PeerEvent → Prop
  | .registerNeighbor _ nodeId host udpPort _ => book nodeId = ⟨host, udpPort⟩
  | .receiveHeartbeat payload => book payload.senderId = ⟨payload.ip, payload.udpPort⟩
  | .expireDeadNodes _ => True
  | .datagramReceived senderId senderUdpPort _ addr => ∀ nodeId ∈ NodeID.ofString senderId,
      book nodeId.hex = ⟨addr.host, if senderUdpPort > 0 then senderUdpPort else addr.port⟩

variable {n} {book : String → Address}

theorem forall_mem_items_setDefault {β : Type} {P : String × β → Prop} {d : Dict String β}
    (h : ∀ item ∈ d.items, P item) {k : String} {v : β} (hnew : P (k, v)) :
    ∀ item ∈ (GossipManager.setDefault d k v).items, P item := by
  unfold GossipManager.setDefault
  split_ifs
  · exact h
  · exact Dict.forall_mem_items_insert h hnew

theorem forall_mem_contacts_addContact {P : NodeInfo → Prop} {table : RoutingTable} {info : NodeInfo}
    (h : ∀ contact ∈ table.contacts, P contact) (hnew : P info) :
    ∀ contact ∈ (table.addContact info).contacts, P contact := by
  have hbuckets : ∀ bucket ∈ table.buckets, ∀ contact ∈ bucket.contacts, P contact :=
    fun bucket hbucket contact hcontact => h contact (List.mem_flatMap.mpr ⟨bucket, hbucket, hcontact⟩)
  unfold RoutingTable.addContact
  split_ifs
  · exact h
  · intro contact hcontact
    obtain ⟨bucket, hbucket, hcontact⟩ := List.mem_flatMap.mp hcontact
    refine forall_mem_modify hbuckets (fun old hold contact hcontact => ?_) bucket hbucket contact hcontact
    rcases KBucket.mem_contacts_add hcontact with hcontact | rfl
    · exact hbuckets old (List.mem_of_getElem? hold) contact hcontact
    · exact hnew

/-- **An event that tells the truth** keeps the tables in agreement. -/
theorem Agrees.step (h : n.Agrees book) {event : PeerEvent} (htrue : event.Truthful book) :
    (n.step event).Agrees book := by
  cases event with
  | registerNeighbor now nodeId host udpPort tcpPort =>
    exact ⟨forall_mem_items_setDefault h.loads htrue.symm,
      Dict.forall_mem_items_insert h.neighbors htrue.symm, h.contacts⟩
  | receiveHeartbeat payload =>
    rw [MeshPeers.step, GossipManager.receiveHeartbeat]
    split_ifs
    · exact h
    · exact ⟨Dict.forall_mem_items_insert h.loads htrue.symm,
        forall_mem_items_setDefault h.neighbors htrue.symm, h.contacts⟩
  | expireDeadNodes now =>
    exact ⟨fun item hitem => h.loads item ((Dict.items_foldl_erase_sublist _ _).subset hitem),
      fun item hitem => h.neighbors item ((Dict.items_foldl_erase_sublist _ _).subset hitem), h.contacts⟩
  | datagramReceived senderId senderUdpPort senderTcpPort addr =>
    rw [MeshPeers.step, refreshContact]
    cases hid : NodeID.ofString senderId with
    | none => exact h
    | some nodeId =>
      exact ⟨h.loads, h.neighbors, forall_mem_contacts_addContact h.contacts (htrue nodeId hid).symm⟩

theorem step_address (event : PeerEvent) : (n.step event).address = n.address ∧ (n.step event).nodeId = n.nodeId := by
  cases event with
  | datagramReceived senderId senderUdpPort senderTcpPort addr =>
    rw [MeshPeers.step, refreshContact]
    cases NodeID.ofString senderId with
    | none | some nodeId => exact ⟨rfl, rfl⟩
  | _ => exact ⟨rfl, rfl⟩

theorem Agrees.mem_records (h : n.Agrees book) {id : String} {peer : Address}
    (hrecord : (id, peer) ∈ n.records) : peer = book id := by
  rw [records, List.mem_append, List.mem_append, List.mem_map, List.mem_map] at hrecord
  rcases hrecord with (⟨item, hitem, heq⟩ | hitem) | ⟨contact, hcontact, heq⟩
  · cases heq
    exact h.loads item hitem
  · exact h.neighbors _ hitem
  · cases heq
    exact h.contacts contact hcontact

theorem mem_getActivePeersForConsensus {peer : Address} :
    peer ∈ n.getActivePeersForConsensus ↔ peer ≠ n.address ∧ ∃ id, (id, peer) ∈ n.records := by
  have hpeers : n.gossip.peerLoads.values.map (fun p => ⟨p.ip, p.udpPort⟩) ++ n.gossip.neighbors.values ++
      n.routingTable.contacts.map (fun contact => ⟨contact.ip, contact.udpPort⟩) = n.records.map Prod.snd := by
    simp only [records, Dict.values, List.map_append, List.map_map, Function.comp_def]
  rw [getActivePeersForConsensus, hpeers, List.mem_toFinset, List.mem_filter, decide_eq_true_eq, and_comm,
    List.mem_map]
  simp

theorem mem_knownIds {id : String} : id ∈ n.knownIds ↔ id ≠ n.nodeId.hex ∧ ∃ peer, (id, peer) ∈ n.records := by
  rw [knownIds, Finset.mem_erase, List.mem_toFinset, List.mem_map]
  simp

section
variable (h : n.Agrees book) (hinj : Function.Injective book) (hown : book n.nodeId.hex = n.address)
include h hinj hown

theorem Agrees.activePeers_eq : n.getActivePeersForConsensus = n.knownIds.image book := by
  ext peer
  rw [mem_getActivePeersForConsensus, Finset.mem_image]
  constructor
  · rintro ⟨hne, id, hrecord⟩
    have hpeer := h.mem_records hrecord
    refine ⟨id, mem_knownIds.mpr ⟨fun hid => hne ?_, peer, hrecord⟩, hpeer.symm⟩
    rw [hpeer, hid, hown]
  · rintro ⟨id, hid, rfl⟩
    obtain ⟨hne, peer, hrecord⟩ := mem_knownIds.mp hid
    refine ⟨fun hsame => hne (hinj (hsame.trans hown.symm)), id, ?_⟩
    rwa [← h.mem_records hrecord]

theorem Agrees.existsUnique_peer {id : String} (hid : id ∈ n.knownIds) :
    ∃! peer, peer ∈ n.getActivePeersForConsensus ∧ (id, peer) ∈ n.records := by
  obtain ⟨-, peer, hrecord⟩ := mem_knownIds.mp hid
  have hpeer := h.mem_records hrecord
  refine ⟨peer, ⟨?_, hrecord⟩, fun other hother => (h.mem_records hother.2).trans hpeer.symm⟩
  rw [h.activePeers_eq hinj hown, hpeer]
  exact Finset.mem_image_of_mem book hid

theorem Agrees.existsUnique_id {peer : Address} (hpeer : peer ∈ n.getActivePeersForConsensus) :
    ∃! id, id ∈ n.knownIds ∧ (id, peer) ∈ n.records := by
  rw [h.activePeers_eq hinj hown, Finset.mem_image] at hpeer
  obtain ⟨id, hid, rfl⟩ := hpeer
  obtain ⟨-, peer, hrecord⟩ := mem_knownIds.mp hid
  refine ⟨id, ⟨hid, h.mem_records hrecord ▸ hrecord⟩, fun other hother => ?_⟩
  exact hinj (h.mem_records hother.2).symm

end

theorem Agrees.after (h : n.Agrees book) {events : List PeerEvent}
    (htrue : ∀ event ∈ events, event.Truthful book) : (n.after events).Agrees book ∧
      (n.after events).address = n.address ∧ (n.after events).nodeId = n.nodeId := by
  induction events generalizing n with
  | nil => exact ⟨h, rfl, rfl⟩
  | cons event events ih =>
    obtain ⟨haddress, hid⟩ := step_address (n := n) event
    have hrest := ih (h.step (htrue event List.mem_cons_self)) fun other hother =>
      htrue other (List.mem_cons_of_mem _ hother)
    rwa [haddress, hid] at hrest

theorem agrees_new (host : String) (udpPort boundUdpPort : Nat) (nodeId : NodeID) (k : Nat)
    (book : String → Address) : (new host udpPort boundUdpPort nodeId k).Agrees book := by
  refine ⟨fun _ hitem => absurd hitem List.not_mem_nil, fun _ hitem => absurd hitem List.not_mem_nil, ?_⟩
  intro contact hcontact
  obtain ⟨bucket, hbucket, hcontact⟩ := List.mem_flatMap.mp hcontact
  rw [List.eq_of_mem_replicate hbucket] at hcontact
  cases hcontact

/-- **Every peer is counted once**, and so the quorum is a majority, where every registration, heartbeat and
datagram gives one address for one node: that of the book. -/
theorem activePeers_once (host : String) (udpPort boundUdpPort : Nat) (nodeId : NodeID) (k : Nat)
    {book : String → Address} (hinj : Function.Injective book)
    (hown : book nodeId.hex = ⟨host, boundUdpPort⟩) (events : List PeerEvent)
    (htrue : ∀ event ∈ events, event.Truthful book) :
    let n := (new host udpPort boundUdpPort nodeId k).after events
    (∀ id ∈ n.knownIds, ∃! peer, peer ∈ n.getActivePeersForConsensus ∧ (id, peer) ∈ n.records) ∧
      (∀ peer ∈ n.getActivePeersForConsensus, ∃! id, id ∈ n.knownIds ∧ (id, peer) ∈ n.records) ∧
      ∀ peers : List Address, peers.Nodup → peers.toFinset = n.getActivePeersForConsensus →
        RaftReplicationEngine.quorumRequired peers = (n.knownIds.card + 1) / 2 + 1 := by
  intro n
  obtain ⟨hagrees, haddress, hid⟩ := (agrees_new host udpPort boundUdpPort nodeId k book).after htrue
  have hown' : book n.nodeId.hex = n.address := by
    rwa [hid, haddress]
  refine ⟨fun id => hagrees.existsUnique_peer hinj hown', fun peer => hagrees.existsUnique_id hinj hown', ?_⟩
  intro peers hnodup hpeers
  rw [RaftReplicationEngine.quorumRequired, ← List.toFinset_card_of_nodup hnodup, hpeers,
    hagrees.activePeers_eq hinj hown', Finset.card_image_of_injective _ hinj]

def exampleId (n : Nat) : NodeID := ⟨List.replicate 19 0 ++ [.ofNat n]⟩

def heard (other : MeshPeers) : List PeerEvent :=
  [.registerNeighbor 0 other.nodeId.hex other.host other.boundUdpPort none,
    .receiveHeartbeat (other.gossip.buildHeartbeat 0 0 1),
    .datagramReceived other.nodeId.hex other.boundUdpPort 0 other.address]

/-- A peer whose host is named by its id, and which has the port that it was configured with. -/
theorem activePeers_once_fixed_port :
    let other := new (exampleId 2).hex 9000 9000 (exampleId 2) 20
    let n := (new (exampleId 1).hex 9000 9000 (exampleId 1) 20).after (heard other)
    RaftReplicationEngine.quorumRequired [other.address] = (n.knownIds.card + 1) / 2 + 1 := by
  intro other n
  have hinj : Function.Injective fun id : String => Address.mk id 9000 := fun _ _ h => congrArg Address.host h
  have htrue : ∀ event ∈ heard other, event.Truthful fun id => ⟨id, 9000⟩ := by
    intro event hevent
    simp only [heard, List.mem_cons, List.not_mem_nil, or_false] at hevent
    rcases hevent with rfl | rfl | rfl
    · rfl
    · rfl
    · have hid : NodeID.ofString other.nodeId.hex = some other.nodeId := by decide +kernel
      rintro nodeId hnodeId
      cases hid.symm.trans hnodeId
      rfl
  exact (activePeers_once (exampleId 1).hex 9000 9000 (exampleId 1) 20 hinj rfl (heard other) htrue).2.2
    [other.address] (List.nodup_singleton _) (by decide +kernel)

/-- Two peers that were configured with port 0 are counted as three, and no two of the three nodes are a
quorum. -/
theorem activePeers_port_zero :
    let n := (new "127.0.0.1" 0 5001 (exampleId 1) 20).after
      (heard (new "127.0.0.1" 0 5002 (exampleId 2) 20) ++ heard (new "127.0.0.1" 0 5003 (exampleId 3) 20))
    n.knownIds = {(exampleId 2).hex, (exampleId 3).hex} ∧
      n.getActivePeersForConsensus = {⟨"127.0.0.1", 5002⟩, ⟨"127.0.0.1", 5003⟩, ⟨"127.0.0.1", 0⟩} ∧
      (n.getActivePeersForConsensus.card + 1) / 2 + 1 = 3 ∧ (n.knownIds.card + 1) / 2 + 1 = 2 := by
  decide +kernel

end MeshPeers

end MeshWeaver
