import MeshWeaver.Cluster.Config
import MeshWeaver.Election.Engine
import MeshWeaver.Lib.Net
import MeshWeaver.Lib.Run

/-!
# Elections over a network

The members exchange vote requests, votes and heartbeats over a network that may lose, delay,
duplicate and reorder them. `Move` says what one step of a node can do to its role, term and vote, and
which of the messages that matter for an election it sends.
-/

namespace MeshWeaver

open Lib

namespace ElectionState

/-- A message that neither asks for a vote nor grants one. -/
def Quiet : ElectionMsg → Prop
  | .voteRequest _ => False
  | .voteResponse resp => resp.voteGranted = false
  | .leaderHeartbeat _ => True
  | .leaderHeartbeatAck _ => True

/-- **What one step can do** to role, term, vote and tally. -/
inductive Move (nodeId : String) (peers : List Address) (st : ElectionState)
    (input : ElectionInput) (st' : ElectionState) (out : List (Address × ElectionMsg)) : Prop
  | quiet (role : st'.role = st.role) (term : st'.currentTerm = st.currentTerm)
      (vote : st'.votedFor = st.votedFor) (votes : st'.votesReceived = st.votesReceived)
      (out : ∀ m ∈ out, Quiet m.2)
  | start (role : st'.role = .candidate ∨ st'.role = .leader ∧ peers = [])
      (term : st'.currentTerm = st.currentTerm + 1) (vote : st'.votedFor = some nodeId)
      (votes : st'.votesReceived = {nodeId})
      (out : ∀ m ∈ out, m.1 ∈ peers ∧
        m.2 = .voteRequest { term := st'.currentTerm, candidateId := nodeId })
  | adopt (role : st'.role = .follower) (term : st.currentTerm < st'.currentTerm)
      (vote : st'.votedFor = none) (out : ∀ m ∈ out, Quiet m.2)
  | abandon (candidate : st.role = .candidate) (role : st'.role = .follower)
      (term : st'.currentTerm = st.currentTerm) (vote : st'.votedFor = none)
      (out : ∀ m ∈ out, Quiet m.2)
  | grant (pkt : Packet ElectionMsg) (req : VoteRequest) (received : input = .receive pkt)
      (request : pkt.payload = .voteRequest req)
      (role : st.currentTerm = req.term ∧ st'.role = st.role ∧
          st'.votesReceived = st.votesReceived ∧
          (st.votedFor = none ∨ st.votedFor = some req.candidateId) ∨
        st.currentTerm < req.term ∧ st'.role = .follower)
      (term : st'.currentTerm = req.term) (vote : st'.votedFor = some req.candidateId)
      (out : out = [(pkt.src, .voteResponse ⟨req.term, true, nodeId⟩)])
  | count (pkt : Packet ElectionMsg) (resp : VoteResponse) (received : input = .receive pkt)
      (response : pkt.payload = .voteResponse resp) (granted : resp.voteGranted = true)
      (current : resp.term = st.currentTerm) (candidate : st.role = .candidate)
      (role : st'.role = .candidate ∨ st'.role = .leader ∧
        requiredQuorum peers ≤ st'.votesReceived.card)
      (term : st'.currentTerm = st.currentTerm) (vote : st'.votedFor = st.votedFor)
      (votes : st'.votesReceived = insert resp.voterId st.votesReceived) (out : out = [])

variable {nodeId : String} {peers : List Address} {st : ElectionState} {pkt : Packet ElectionMsg}

theorem move_startElection : Move nodeId peers st .startElection
    (st.startElection nodeId peers).1 (st.startElection nodeId peers).2 := by
  unfold startElection
  split_ifs with halone
  · refine .start (Or.inr ⟨rfl, List.length_eq_zero_iff.mp (by omega)⟩) rfl rfl rfl (by simp)
  · refine .start (Or.inl rfl) rfl rfl rfl fun m hm => ?_
    obtain ⟨peer, hpeer, rfl⟩ := List.mem_map.mp hm
    exact ⟨hpeer, rfl⟩

theorem move_broadcastHeartbeat :
    Move nodeId peers st .broadcastHeartbeat st (st.broadcastHeartbeat nodeId peers) := by
  refine .quiet rfl rfl rfl rfl fun m hm => ?_
  unfold broadcastHeartbeat at hm
  split_ifs at hm
  · simp at hm
  · obtain ⟨peer, -, rfl⟩ := List.mem_map.mp hm
    trivial

theorem move_handleVoteRequest {req : VoteRequest} (hreq : pkt.payload = .voteRequest req) :
    Move nodeId peers st (.receive pkt) (st.handleVoteRequest nodeId req).1
      [(pkt.src, .voteResponse (st.handleVoteRequest nodeId req).2)] := by
  unfold handleVoteRequest
  by_cases hstale : req.term < st.currentTerm
  · rw [if_pos hstale]
    exact .quiet rfl rfl rfl rfl (by simp [Quiet])
  rw [if_neg hstale]
  by_cases hnew : req.term > st.currentTerm
  · -- a newer term: step down first, which frees the vote
    have hfree : (st.stepDown req.term).votedFor = none := rfl
    rw [if_pos hnew, if_pos (Or.inl hfree)]
    have hterm : (st.stepDown req.term).currentTerm = req.term := max_eq_right hnew.le
    exact .grant pkt req rfl hreq (Or.inr ⟨hnew, rfl⟩) hterm rfl (by rw [hterm])
  · have hsame : st.currentTerm = req.term := by omega
    rw [if_neg hnew]
    by_cases hfree : st.votedFor = none ∨ st.votedFor = some req.candidateId
    · rw [if_pos hfree]
      exact .grant pkt req rfl hreq (Or.inl ⟨hsame, rfl, rfl, hfree⟩) hsame rfl (by rw [hsame])
    · rw [if_neg hfree]
      exact .quiet rfl rfl rfl rfl (by simp [Quiet])

theorem move_handleVoteResponse {resp : VoteResponse} (hresp : pkt.payload = .voteResponse resp) :
    Move nodeId peers st (.receive pkt) (st.handleVoteResponse nodeId peers resp) [] := by
  unfold handleVoteResponse
  by_cases hnew : resp.term > st.currentTerm
  · rw [if_pos hnew]
    exact .adopt rfl (lt_max_of_lt_right hnew) rfl (by simp)
  rw [if_neg hnew]
  by_cases hother : st.role ≠ .candidate ∨ resp.term ≠ st.currentTerm
  · rw [if_pos hother]
    exact .quiet rfl rfl rfl rfl (by simp)
  rw [if_neg hother]
  rw [not_or, not_not, not_not] at hother
  by_cases hgranted : resp.voteGranted = true
  · dsimp only
    split_ifs with hquorum
    · have hrole : st.role ≠ .leader := by simp [hother.1]
      simp only [promoteToLeader, if_neg hrole]
      exact .count pkt resp rfl hresp hgranted hother.2 hother.1 (Or.inr ⟨rfl, hquorum⟩) rfl rfl rfl rfl
    · exact .count pkt resp rfl hresp hgranted hother.2 hother.1 (Or.inl hother.1) rfl rfl rfl rfl
  · rw [if_neg hgranted]
    exact .quiet rfl rfl rfl rfl (by simp)

theorem move_handleLeaderHeartbeat {hb : LeaderHeartbeat} :
    Move nodeId peers st (.receive pkt) (st.handleLeaderHeartbeat nodeId hb).1
      [(pkt.src, .leaderHeartbeatAck (st.handleLeaderHeartbeat nodeId hb).2)] := by
  unfold handleLeaderHeartbeat
  by_cases hstale : hb.term < st.currentTerm
  · rw [if_pos hstale]
    exact .quiet rfl rfl rfl rfl (by simp [Quiet])
  rw [if_neg hstale]
  by_cases hnew : hb.term > st.currentTerm
  · rw [if_pos hnew]
    exact .adopt rfl (lt_max_of_lt_right hnew) rfl (by simp [Quiet])
  split_ifs with hcand
  · -- a candidate gives up its candidacy, and with it its vote, within the same term
    exact .abandon hcand rfl (max_eq_left (by omega)) rfl (by simp [Quiet])
  · exact .quiet rfl rfl rfl rfl (by simp [Quiet])

theorem move_act (nodeId : String) (peers : List Address) (st : ElectionState) (input : ElectionInput) :
    Move nodeId peers st input (st.act nodeId peers input).1 (st.act nodeId peers input).2 := by
  cases input with
  | startElection => exact move_startElection
  | broadcastHeartbeat => exact move_broadcastHeartbeat
  | receive pkt =>
    rw [act]
    cases hpay : pkt.payload with
    | voteRequest req => exact move_handleVoteRequest hpay
    | voteResponse resp => exact move_handleVoteResponse hpay
    | leaderHeartbeat hb => exact move_handleLeaderHeartbeat
    | leaderHeartbeatAck ack => exact .quiet rfl rfl rfl rfl (by simp)

end ElectionState

/-! ### The network -/

open ElectionState (ElectionInput)

abbrev ElectionNet := Net String ElectionState (Packet ElectionMsg)

/-- `deliver k` hands over the `k`-th packet ever sent. -/
inductive ElectionEvent where
  | startElection (i : String)
  | broadcastHeartbeat (i : String)
  | deliver (k : Nat)
deriving DecidableEq

namespace ElectionNet

variable (cfg : Config)

def init : ElectionNet := ⟨fun _ => .init, []⟩

def stepAt (s : ElectionNet) (i : String) (input : ElectionInput) : ElectionNet :=
  let (st, out) := (s.node i).act i (cfg.peers i) input
  s.update i st (cfg.mail i out)

def step (s : ElectionNet) : ElectionEvent → ElectionNet
  | .startElection i => if i ∈ cfg.members then stepAt cfg s i .startElection else s
  | .broadcastHeartbeat i => if i ∈ cfg.members then stepAt cfg s i .broadcastHeartbeat else s
  | .deliver k =>
    match s.sent[k]? with
    | none => s
    | some pkt =>
      match cfg.owner pkt.dst with
      | none => s
      | some i => stepAt cfg s i (.receive pkt)

def received (s : ElectionNet) : ElectionEvent → Option (String × Packet ElectionMsg)
  | .deliver k =>
    match s.sent[k]? with
    | none => none
    | some pkt => (cfg.owner pkt.dst).map fun i => (i, pkt)
  | _ => none

variable {cfg}

theorem received_spec {s : ElectionNet} {ev : ElectionEvent} {i : String} {pkt : Packet ElectionMsg}
    (h : received cfg s ev = some (i, pkt)) : pkt ∈ s.sent ∧ pkt.dst = cfg.addr i := by
  cases ev with
  | deliver k =>
    simp only [received] at h
    split at h
    · simp at h
    · rename_i pkt' hpkt
      simp only [Option.map_eq_some_iff, Prod.mk.injEq] at h
      obtain ⟨j, howner, rfl, rfl⟩ := h
      exact ⟨List.mem_of_getElem? hpkt, (Config.owner_eq_some howner).2.symm⟩
  | startElection | broadcastHeartbeat => simp [received] at h

/-- **What a step of the network can do**: nothing, or one move of one member, on a packet that was
sent to it if it receives one. -/
theorem step_cases (s : ElectionNet) (ev : ElectionEvent) :
    step cfg s ev = s ∨ ∃ i ∈ cfg.members, ∃ input st out,
      ElectionState.Move i (cfg.peers i) (s.node i) input st out ∧
      (∀ pkt, input = .receive pkt → received cfg s ev = some (i, pkt)) ∧
      step cfg s ev = s.update i st (cfg.mail i out) := by
  cases ev with
  | startElection i =>
    rw [step]
    split_ifs with hi
    · exact Or.inr ⟨i, hi, _, _, _, ElectionState.move_act i _ _ .startElection, by simp, rfl⟩
    · exact Or.inl rfl
  | broadcastHeartbeat i =>
    rw [step]
    split_ifs with hi
    · exact Or.inr ⟨i, hi, _, _, _, ElectionState.move_act i _ _ .broadcastHeartbeat, by simp, rfl⟩
    · exact Or.inl rfl
  | deliver k =>
    rw [step]
    cases hpkt : s.sent[k]? with
    | none => exact Or.inl rfl
    | some pkt =>
      dsimp only
      cases howner : cfg.owner pkt.dst with
      | none => exact Or.inl rfl
      | some i =>
        obtain ⟨hi, -⟩ := Config.owner_eq_some howner
        refine Or.inr ⟨i, hi, _, _, _, ElectionState.move_act i _ _ (.receive pkt), ?_, rfl⟩
        simp [received, hpkt, howner]

end ElectionNet

end MeshWeaver
