import Mathlib.Data.Finset.Card
import MeshWeaver.Model.Messages

/-!
# The election engine

`LeaderElectionEngine` of `leader_election.py`. The timers (`last_heartbeat_received`,
`lease_expires_at`, `election_timeout`) only decide when `start_election` runs, and the runs below
let it run at any time; they and the counters for the metrics are left out. `peers` is what
`get_active_peers()` returns.
-/

namespace MeshWeaver

structure ElectionState where
  role : ElectionRole
  currentTerm : Int
  votedFor : Option String
  currentLeader : Option String
  votesReceived : Finset String
deriving DecidableEq

namespace ElectionState

def init : ElectionState := ⟨.follower, 0, none, none, ∅⟩

variable (nodeId : String) (peers : List Address) (st : ElectionState)

def stepDown (newTerm : Int) : ElectionState :=
  { st with
    role := .follower, currentTerm := max st.currentTerm newTerm, votedFor := none,
    votesReceived := ∅ }

def promoteToLeader : ElectionState :=
  if st.role = .leader then st else { st with role := .leader, currentLeader := some nodeId }

def requiredQuorum : Nat := (peers.length + 1) / 2 + 1

def startElection : ElectionState × List (Address × ElectionMsg) :=
  let st₁ : ElectionState :=
    { role := .candidate, currentTerm := st.currentTerm + 1, votedFor := some nodeId,
      votesReceived := {nodeId}, currentLeader := none }
  if peers.length + 1 = 1 ∨ peers.length = 0 then (st₁.promoteToLeader nodeId, [])
  else
    (st₁, peers.map fun peer =>
      (peer, .voteRequest { term := st₁.currentTerm, candidateId := nodeId }))

def handleVoteRequest (req : VoteRequest) : ElectionState × VoteResponse :=
  if req.term < st.currentTerm then (st, ⟨st.currentTerm, false, nodeId⟩)
  else
    let st₁ := if req.term > st.currentTerm then st.stepDown req.term else st
    -- one vote a term, and the same candidate may ask again
    if st₁.votedFor = none ∨ st₁.votedFor = some req.candidateId then
      ({ st₁ with votedFor := some req.candidateId }, ⟨st₁.currentTerm, true, nodeId⟩)
    else (st₁, ⟨st₁.currentTerm, false, nodeId⟩)

def handleVoteResponse (resp : VoteResponse) : ElectionState :=
  if resp.term > st.currentTerm then st.stepDown resp.term
  else if st.role ≠ .candidate ∨ resp.term ≠ st.currentTerm then st
  else if resp.voteGranted then
    let st₁ := { st with votesReceived := insert resp.voterId st.votesReceived }
    if st₁.votesReceived.card ≥ requiredQuorum peers then st₁.promoteToLeader nodeId else st₁
  else st

def broadcastHeartbeat : List (Address × ElectionMsg) :=
  if st.role ≠ .leader then []
  else peers.map fun peer =>
    (peer, .leaderHeartbeat { term := st.currentTerm, leaderId := nodeId })

def handleLeaderHeartbeat (hb : LeaderHeartbeat) : ElectionState × LeaderHeartbeatAck :=
  if hb.term < st.currentTerm then (st, ⟨st.currentTerm, nodeId, false⟩)
  else
    let st₁ :=
      if hb.term > st.currentTerm then st.stepDown hb.term
      else if st.role = .candidate then st.stepDown hb.term
      else st
    let st₂ := { st₁ with currentLeader := some hb.leaderId }
    (st₂, ⟨st₂.currentTerm, nodeId, true⟩)

inductive ElectionInput where
  | startElection
  | broadcastHeartbeat
  | receive (pkt : Packet ElectionMsg)

/-- The engine after one input, and the messages it sends. Answers go back to where the datagram
came from; the handler of answers ignores acknowledged heartbeats. -/
def act : ElectionInput → ElectionState × List (Address × ElectionMsg)
  | .startElection => st.startElection nodeId peers
  | .broadcastHeartbeat => (st, st.broadcastHeartbeat nodeId peers)
  | .receive pkt =>
    match pkt.payload with
    | .voteRequest req =>
      let (st', resp) := st.handleVoteRequest nodeId req
      (st', [(pkt.src, .voteResponse resp)])
    | .voteResponse resp => (st.handleVoteResponse nodeId peers resp, [])
    | .leaderHeartbeat hb =>
      let (st', ack) := st.handleLeaderHeartbeat nodeId hb
      (st', [(pkt.src, .leaderHeartbeatAck ack)])
    | .leaderHeartbeatAck _ => (st, [])

end ElectionState

end MeshWeaver
