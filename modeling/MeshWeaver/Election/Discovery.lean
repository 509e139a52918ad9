import MeshWeaver.Election.Network

/-!
# Elections while the members find each other

Nodes start without any peers and learn them at any time. A node that knows nobody elects itself, so two nodes may
lead the same term before they meet. An accepted heartbeat makes its receiver a follower of the sender, except at
a leader of the heartbeat's own term (`heartbeat_accepted_iff`).
-/

namespace MeshWeaver

open Lib
open ElectionState (ElectionInput)

namespace ElectionState

variable {nodeId : String} {peers : List Address} {st : ElectionState}

theorem handleLeaderHeartbeat_accepted {hb : LeaderHeartbeat}
    (h : (st.handleLeaderHeartbeat nodeId hb).2.accepted = true) :
    (st.handleLeaderHeartbeat nodeId hb).1.currentLeader = some hb.leaderId ∧
      ((st.handleLeaderHeartbeat nodeId hb).1.role = .follower ↔
        ¬ (st.role = .leader ∧ st.currentTerm = hb.term)) := by
  unfold handleLeaderHeartbeat at h ⊢
  by_cases hstale : hb.term < st.currentTerm
  · rw [if_pos hstale] at h
    cases h
  rw [if_neg hstale]
  refine ⟨rfl, ?_⟩
  by_cases hnew : hb.term > st.currentTerm
  · rw [if_pos hnew]
    exact iff_of_true rfl fun hleads => by omega
  have hsame : st.currentTerm = hb.term := by omega
  rw [if_neg hnew]
  cases hrole : st.role with
  | candidate => simp [stepDown]
  | follower => simp [hrole]
  | leader => simp [hrole, hsame]

theorem leaderId_of_mem_act {input : ElectionInput} {m : Address × ElectionMsg}
    (hm : m ∈ (st.act nodeId peers input).2) {hb : LeaderHeartbeat} (hhb : m.2 = .leaderHeartbeat hb) :
    hb.leaderId = nodeId := by
  cases input with
  | startElection =>
    rw [act, startElection] at hm
    split_ifs at hm
    · cases hm
    · obtain ⟨peer, -, rfl⟩ := List.mem_map.mp hm
      cases hhb
  | broadcastHeartbeat =>
    rw [act, broadcastHeartbeat] at hm
    split_ifs at hm
    · cases hm
    · obtain ⟨peer, -, rfl⟩ := List.mem_map.mp hm
      cases hhb
      rfl
  | receive pkt =>
    rw [act] at hm
    -- an answer is no heartbeat
    cases hpay : pkt.payload with
    | voteRequest req | leaderHeartbeat hb' =>
      rw [hpay] at hm
      obtain rfl := List.mem_singleton.mp hm
      cases hhb
    | voteResponse resp | leaderHeartbeatAck ack =>
      rw [hpay] at hm
      cases hm

end ElectionState

/-- The nodes, all messages sent, and what `get_active_peers()` returns at each node now. -/
structure DiscoveryNet where
  net : ElectionNet
  peers : String → List Address

inductive DiscoveryEvent where
  | learn (i : String) (peers : List Address)
  | elect (ev : ElectionEvent)

namespace DiscoveryNet

def init : DiscoveryNet := ⟨.init, fun _ => []⟩

variable (cfg : Config)

/-- The node that an event is for, and what it is given to do. -/
def input? (s : DiscoveryNet) : ElectionEvent → Option (String × ElectionInput)
  | .startElection i => if i ∈ cfg.members then some (i, .startElection) else none
  | .broadcastHeartbeat i => if i ∈ cfg.members then some (i, .broadcastHeartbeat) else none
  | .deliver k => (ElectionNet.received cfg s.net (.deliver k)).map fun r => (r.1, .receive r.2)

def step (s : DiscoveryNet) : DiscoveryEvent → DiscoveryNet
  | .learn i peers => { s with peers := Function.update s.peers i peers }
  | .elect ev =>
    match s.input? cfg ev with
    | none => s
    | some (i, input) =>
      let (st, out) := (s.net.node i).act i (s.peers i) input
      { s with net := s.net.update i st (cfg.mail i out) }

variable {cfg}

/-- Every heartbeat on the network names its sender. -/
def Signed (s : DiscoveryNet) : Prop :=
  ∀ pkt ∈ s.net.sent, ∀ hb, pkt.payload = .leaderHeartbeat hb → hb.leaderId = pkt.senderId

theorem Signed.step {s : DiscoveryNet} (h : s.Signed) (ev : DiscoveryEvent) : (s.step cfg ev).Signed := by
  cases ev with
  | learn i peers => exact h
  | elect ev =>
    rw [DiscoveryNet.step]
    cases s.input? cfg ev with
    | none => exact h
    | some r =>
      intro pkt hpkt hb hhb
      rcases Net.mem_sent_update.mp hpkt with hold | hnew
      · exact h pkt hold hb hhb
      · obtain ⟨-, hsender, hout⟩ := Config.mem_mail hnew
        rw [hsender]
        exact ElectionState.leaderId_of_mem_act hout hhb

theorem signed_run (events : List DiscoveryEvent) : (run (step cfg) init events).Signed :=
  run_invariant (fun _ ev h => h.step ev) (fun _ hpkt => by cases hpkt) events

theorem step_deliver {s : DiscoveryNet} {k : Nat} {i : String} {pkt : Packet ElectionMsg}
    {hb : LeaderHeartbeat} (hreceived : ElectionNet.received cfg s.net (.deliver k) = some (i, pkt))
    (hhb : pkt.payload = .leaderHeartbeat hb) :
    (s.step cfg (.elect (.deliver k))).net.node i = ((s.net.node i).handleLeaderHeartbeat i hb).1 := by
  rw [step, input?, hreceived]
  simp only [Option.map_some, ElectionState.act, hhb, Net.update_node_self]

/-- **An accepted heartbeat** makes its receiver a follower of the sender exactly when the receiver
does not lead the same term itself. -/
theorem heartbeat_accepted_iff (cfg : Config) (events : List DiscoveryEvent) (k : Nat) (i : String)
    (pkt : Packet ElectionMsg) (hb : LeaderHeartbeat)
    (hreceived : ElectionNet.received cfg (run (step cfg) init events).net (.deliver k) = some (i, pkt))
    (hhb : pkt.payload = .leaderHeartbeat hb)
    (haccepted :
      (((run (step cfg) init events).net.node i).handleLeaderHeartbeat i hb).2.accepted = true) :
    (((run (step cfg) init (events ++ [.elect (.deliver k)])).net.node i).role = .follower ∧
      ((run (step cfg) init (events ++ [.elect (.deliver k)])).net.node i).currentLeader =
        some pkt.senderId) ↔
    ¬ (((run (step cfg) init events).net.node i).role = .leader ∧
      ((run (step cfg) init events).net.node i).currentTerm = hb.term) := by
  have hsigned : hb.leaderId = pkt.senderId :=
    signed_run events pkt (ElectionNet.received_spec hreceived).1 hb hhb
  obtain ⟨hleader, hrole⟩ := ElectionState.handleLeaderHeartbeat_accepted haccepted
  rw [run_append, run_cons, run_nil, step_deliver hreceived hhb, ← hrole, ← hsigned]
  exact and_iff_left hleader

def introduced : List DiscoveryEvent :=
  [.elect (.startElection "a"), .learn "a" [⟨"b", 7000⟩], .elect (.broadcastHeartbeat "a")]

theorem introduced_follows :
    ((run (step trio) init (introduced ++ [.elect (.deliver 0)])).net.node "b").role = .follower ∧
    ((run (step trio) init (introduced ++ [.elect (.deliver 0)])).net.node "b").currentLeader =
      some "a" :=
  (heartbeat_accepted_iff trio introduced 0 "b"
    ⟨⟨"a", 7000⟩, ⟨"b", 7000⟩, "a", .leaderHeartbeat ⟨1, "a"⟩⟩ ⟨1, "a"⟩ rfl rfl
    (by decide +kernel)).mpr (by decide +kernel)

def met : List DiscoveryEvent :=
  [.elect (.startElection "a"), .elect (.startElection "b"), .learn "a" [⟨"b", 7000⟩],
    .learn "b" [⟨"a", 7000⟩], .elect (.broadcastHeartbeat "a"), .elect (.broadcastHeartbeat "b"),
    .elect (.deliver 0), .elect (.deliver 1)]

/-- **Two leaders of one term**, each of which has accepted the other's heartbeat. -/
theorem met_both_lead :
    (run (step trio) init met).net.node "a" = ⟨.leader, 1, some "a", some "b", {"a"}⟩ ∧
    (run (step trio) init met).net.node "b" = ⟨.leader, 1, some "b", some "a", {"b"}⟩ ∧
    ∀ ack ∈ [(⟨1, "b", true⟩ : LeaderHeartbeatAck), ⟨1, "a", true⟩],
      .leaderHeartbeatAck ack ∈ (run (step trio) init met).net.sent.map (·.payload) := by
  decide +kernel

end DiscoveryNet

end MeshWeaver
