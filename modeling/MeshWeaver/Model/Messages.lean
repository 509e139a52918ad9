import MeshWeaver.Raft.StateMachine

/-!
# Addresses, roles and the consensus messages

The payloads of the election and replication datagrams. A datagram also names its sender
(`sender_id`) and arrives from the sender's address; both are part of the envelopes of the network,
not of the payloads.
-/

namespace MeshWeaver

/-- A `(host, port)` pair. -/
structure Address where
  host : String
  port : Nat
deriving DecidableEq, Repr

inductive ElectionRole where
  | follower | candidate | leader
deriving DecidableEq, Repr

def ElectionRole.value : ElectionRole → String
  | .follower => "FOLLOWER"
  | .candidate => "CANDIDATE"
  | .leader => "LEADER"

structure VoteRequest where
  term : Int
  candidateId : String
  lastLogIndex : Int := 0
  lastLogTerm : Int := 0
deriving DecidableEq

structure VoteResponse where
  term : Int
  voteGranted : Bool
  voterId : String
deriving DecidableEq

structure LeaderHeartbeat where
  term : Int
  leaderId : String
deriving DecidableEq

structure LeaderHeartbeatAck where
  term : Int
  nodeId : String
  accepted : Bool
deriving DecidableEq

inductive ElectionMsg where
  | voteRequest (req : VoteRequest)
  | voteResponse (resp : VoteResponse)
  | leaderHeartbeat (hb : LeaderHeartbeat)
  | leaderHeartbeatAck (ack : LeaderHeartbeatAck)
deriving DecidableEq

structure AppendEntriesRequest where
  term : Int
  leaderId : String
  prevLogIndex : Int
  prevLogTerm : Int
  entries : List LogEntry
  leaderCommit : Int

structure AppendEntriesResponse where
  term : Int
  followerId : String
  success : Bool
  matchIndex : Int
  lastLogIndex : Int
  errorMessage : Option String := none
deriving DecidableEq

structure InstallSnapshotRequest where
  term : Int
  leaderId : String
  lastIncludedIndex : Int
  lastIncludedTerm : Int
  data : SnapshotData
  done : Bool := true

structure InstallSnapshotResponse where
  term : Int
  followerId : String
  success : Bool
  matchIndex : Int
  errorMessage : Option String := none
deriving DecidableEq

inductive RaftMsg where
  | appendEntriesRequest (req : AppendEntriesRequest)
  | appendEntriesResponse (resp : AppendEntriesResponse)
  | installSnapshotRequest (req : InstallSnapshotRequest)
  | installSnapshotResponse (resp : InstallSnapshotResponse)

/-- A datagram in the network: where it comes from, where it goes, and the `sender_id` it names. -/
@[ext] structure Packet (μ : Type) where
  src : Address
  dst : Address
  senderId : String
  payload : μ

/-- What `get_term_and_role()` returns. -/
structure View where
  term : Int
  role : ElectionRole
deriving DecidableEq

end MeshWeaver
