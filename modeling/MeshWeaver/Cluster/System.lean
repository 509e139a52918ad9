import MeshWeaver.Election.Safety
import MeshWeaver.Raft.Network

/-!
# Nodes wired as in `MeshNode`

Every member runs an election engine and a replication engine, and the replication engine reads term
and role from the election engine (`_get_term_and_role`). The two engines exchange different packets
and share nothing else, so a step of the cluster is a step of one of the two networks. A packet
carries the entries as they were built, so the values of commands are JSON values with string keys.
-/

namespace MeshWeaver

structure Cluster where
  election : ElectionNet
  raft : RaftNet

inductive ClusterEvent where
  | election (ev : ElectionEvent)
  | raft (ev : RaftEvent)

namespace Cluster

def init : Cluster := ⟨ElectionNet.init, RaftNet.init⟩

/-- What the replication engine of each node reads. -/
def view (s : Cluster) (i : String) : View :=
  ⟨(s.election.node i).currentTerm, (s.election.node i).role⟩

def step (cfg : Config) (s : Cluster) : ClusterEvent → Cluster
  | .election ev => { s with election := ElectionNet.step cfg s.election ev }
  | .raft ev => { s with raft := RaftNet.step cfg s.view s.raft ev }

/-- Member `i` has moved in the election, and its packets are sent. -/
abbrev electionMoves (cfg : Config) (s : Cluster) (i : String) (st : ElectionState)
    (out : List (Address × ElectionMsg)) : Cluster :=
  { s with election := s.election.update i st (cfg.mail i out) }

abbrev raftMoves (cfg : Config) (s : Cluster) (i : String) (eng : RaftReplicationEngine)
    (out : List (Address × RaftMsg)) : Cluster :=
  { s with raft := s.raft.update i eng (cfg.mail i out) }

def entries (s : Cluster) (i : String) : List LogEntry := (s.raft.node i).log.entries

section received

variable (cfg : Config) (s : Cluster)

/-- The vote request an event hands over, and the member it hands it to. -/
def asked : ClusterEvent → Option (String × VoteRequest)
  | .election ev =>
    match ElectionNet.received cfg s.election ev with
    | some (i, ⟨_, _, _, .voteRequest req⟩) => some (i, req)
    | _ => none
  | .raft _ => none

def voted : ClusterEvent → Option (String × VoteResponse)
  | .election ev =>
    match ElectionNet.received cfg s.election ev with
    | some (i, ⟨_, _, _, .voteResponse resp⟩) => some (i, resp)
    | _ => none
  | .raft _ => none

def requested : ClusterEvent → Option (String × AppendEntriesRequest)
  | .election _ => none
  | .raft ev =>
    match RaftNet.received cfg s.raft ev with
    | some (i, ⟨_, _, _, .appendEntriesRequest req⟩) => some (i, req)
    | _ => none

def answered : ClusterEvent → Option (String × AppendEntriesResponse)
  | .election _ => none
  | .raft ev =>
    match RaftNet.received cfg s.raft ev with
    | some (i, ⟨_, _, _, .appendEntriesResponse resp⟩) => some (i, resp)
    | _ => none

variable {cfg s} {i : String}

theorem asked_eq_some {ev : ElectionEvent} {pkt : Packet ElectionMsg} {req : VoteRequest}
    (hrecv : ElectionNet.received cfg s.election ev = some (i, pkt))
    (hreq : pkt.payload = .voteRequest req) : s.asked cfg (.election ev) = some (i, req) := by
  obtain ⟨src, dst, senderId, payload⟩ := pkt
  cases hreq
  simp only [asked, hrecv]

theorem voted_eq_some {ev : ElectionEvent} {pkt : Packet ElectionMsg} {resp : VoteResponse}
    (hrecv : ElectionNet.received cfg s.election ev = some (i, pkt))
    (hresp : pkt.payload = .voteResponse resp) : s.voted cfg (.election ev) = some (i, resp) := by
  obtain ⟨src, dst, senderId, payload⟩ := pkt
  cases hresp
  simp only [voted, hrecv]

theorem requested_eq_some {ev : RaftEvent} {pkt : Packet RaftMsg} {req : AppendEntriesRequest}
    (hrecv : RaftNet.received cfg s.raft ev = some (i, pkt)) (hreq : pkt.payload = .appendEntriesRequest req) :
    s.requested cfg (.raft ev) = some (i, req) := by
  obtain ⟨src, dst, senderId, payload⟩ := pkt
  cases hreq
  simp only [requested, hrecv]

theorem answered_eq_some {ev : RaftEvent} {pkt : Packet RaftMsg} {resp : AppendEntriesResponse}
    (hrecv : RaftNet.received cfg s.raft ev = some (i, pkt)) (hresp : pkt.payload = .appendEntriesResponse resp) :
    s.answered cfg (.raft ev) = some (i, resp) := by
  obtain ⟨src, dst, senderId, payload⟩ := pkt
  cases hresp
  simp only [answered, hrecv]

end received

end Cluster

end MeshWeaver
