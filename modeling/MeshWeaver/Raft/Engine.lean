import MeshWeaver.Model.Messages
import MeshWeaver.Raft.Log

/-!
# The replication engine

The callbacks of `RaftReplicationEngine` become arguments: `get_term_and_role()` is `term role`, `get_active_peers()` is
`peers`, `time.time()` is `now` or, inside `apply_command`, `clock`; `send_message` becomes a list of messages in the
result.

Progress is kept per key: the id a follower puts into its answers (`node`) and the `host:port` its datagrams come from
(`addr`). Node ids are hexadecimal, so the test `":" not in fid` tells the two apart, and here the constructor does.

A coroutine suspended in `propose_command` is a `Proposal`: the entry it appended and its future. `applyCalls` is a
history variable: the calls of `apply_command` made by `apply_committed_entries`, with their outcomes.
-/

namespace MeshWeaver

open Lib

inductive PeerKey where
  | node (id : String)
  | addr (a : Address)
deriving DecidableEq

structure FollowerProgress where
  nodeId : PeerKey
  matchIndex : Int
  nextIndex : Int
deriving DecidableEq

/-- How an answer moves the pointers of `synchronize_follower_progress`. -/
def FollowerProgress.synchronize (p : FollowerProgress) (success : Bool)
    (matchIndex lastIndex : Int) : FollowerProgress :=
  if success then
    let m := max p.matchIndex matchIndex
    { p with matchIndex := m, nextIndex := m + 1 }
  else
    -- step down next_index on conflict to find the common ancestor
    { p with nextIndex := max 1 (min (p.nextIndex - 1) (lastIndex + 1)) }

inductive FutureState where
  | pending
  | resolved (result : CommandResult)
  | timedOut

/-- A call of `propose_command` that waits for its entry to be applied, or has done so. -/
structure Proposal where
  entry : LogEntry
  state : FutureState

/-- `fut.set_result(res)` unless the future is done. -/
def Proposal.resolve (res : CommandResult) (p : Proposal) : Proposal :=
  match p.state with
  | .pending => { p with state := .resolved res }
  | _ => p

structure ApplyCall where
  entry : LogEntry
  clock : Clock
  outcome : Except PyError CommandResult

structure RaftReplicationEngine where
  nodeId : String
  log : RaftLog
  stateMachine : ReplicatedStateMachine
  followers : Dict PeerKey FollowerProgress
  pendingProposals : Dict Int Nat
  proposals : List Proposal
  applyCalls : List ApplyCall

/-- What `propose_command` comes to before it suspends. -/
inductive ProposeOutcome where
  | returned (result : CommandResult)
  | waiting (proposal : Nat)

namespace RaftReplicationEngine

abbrev Engine := RaftReplicationEngine

def init (nodeId : String) : Engine :=
  { nodeId, log := .empty, stateMachine := .empty, followers := .empty, pendingProposals := .empty,
    proposals := [], applyCalls := [] }

/-! ### Applying committed entries -/

variable (eng : Engine)

/-- Resolve the future registered for `index`, if there is one. -/
def resolvePending (index : Int) (res : CommandResult) : Engine :=
  match eng.pendingProposals.get? index with
  | none => eng
  | some fut =>
    { eng with
      pendingProposals := eng.pendingProposals.erase index
      proposals := eng.proposals.modify fut (Proposal.resolve res) }

/-- One round of `apply_committed_entries`. An entry whose application raises is not marked. -/
def applyOne (clock : Clock) (entry : LogEntry) (eng : Engine) :
    Engine × Except PyError CommandResult :=
  match eng.stateMachine.applyCommand clock entry with
  | (sm, .error e) =>
    let call : ApplyCall := ⟨entry, clock, .error e⟩
    ({ eng with stateMachine := sm, applyCalls := eng.applyCalls ++ [call] }, .error e)
  | (sm, .ok res) =>
    let call : ApplyCall := ⟨entry, clock, .ok res⟩
    let eng₁ := { eng with
      stateMachine := sm
      log := eng.log.markApplied entry.index
      applyCalls := eng.applyCalls ++ [call] }
    (eng₁.resolvePending entry.index res, .ok res)

def applyLoop (clock : Clock) : List LogEntry → List (Int × CommandResult) → Engine →
    Engine × Except PyError (List (Int × CommandResult))
  | [], results, eng => (eng, .ok results)
  | entry :: rest, results, eng =>
    match applyOne clock entry eng with
    | (eng₁, .error e) => (eng₁, .error e)
    | (eng₁, .ok res) => applyLoop clock rest (results ++ [(entry.index, res)]) eng₁

def applyCommittedEntries (clock : Clock) (eng : Engine) :
    Engine × Except PyError (List (Int × CommandResult)) :=
  applyLoop clock eng.log.getUnappliedEntries [] eng

/-- `log.advance_commit_index(i)` followed by `apply_committed_entries()` -/
def commitTo (clock : Clock) (i : Int) (eng : Engine) :
    Engine × Except PyError (List (Int × CommandResult)) :=
  applyCommittedEntries clock { eng with log := eng.log.advanceCommitIndex i }

/-! ### The leader's side -/

def initializeFollower (follower : PeerKey) : Engine :=
  match eng.followers.get? follower with
  | some _ => eng
  | none =>
    { eng with followers := eng.followers.insert follower ⟨follower, 0, eng.log.lastIndex + 1⟩ }

/-- `follower.next_index if follower else 1` -/
def nextIndexFor (peer : Address) : Int :=
  match eng.followers.get? (.addr peer) with
  | some follower => follower.nextIndex
  | none => 1

/-- The request `broadcast_append_entries` builds for one peer. -/
def requestFor (term : Int) (now : Rat) (peer : Address) : RaftMsg :=
  let nextIdx := eng.nextIndexFor peer
  if eng.log.snapshotLastIndex > 0 ∧ nextIdx ≤ eng.log.snapshotLastIndex then
    -- the follower has fallen behind the compacted log boundary
    .installSnapshotRequest
      { term, leaderId := eng.nodeId, lastIncludedIndex := eng.log.snapshotLastIndex,
        lastIncludedTerm := eng.log.snapshotLastTerm, data := eng.stateMachine.exportState now }
  else
    let prevIdx := nextIdx - 1
    .appendEntriesRequest
      { term, leaderId := eng.nodeId, prevLogIndex := prevIdx, prevLogTerm := eng.log.getTerm prevIdx,
        entries := eng.log.sliceFrom nextIdx, leaderCommit := eng.log.commitIndex }

def broadcastAppendEntries (term : Int) (role : ElectionRole) (peers : List Address)
    (now : Rat) : List (Address × RaftMsg) :=
  if role ≠ .leader then [] else peers.map fun peer => (peer, eng.requestFor term now peer)

def synchronizeFollowerProgress (follower : PeerKey) (success : Bool)
    (matchIndex lastIndex : Int) : Engine :=
  let eng₁ := eng.initializeFollower follower
  match eng₁.followers.get? follower with
  | none => eng₁
  | some p =>
    let p' := p.synchronize success matchIndex lastIndex
    { eng₁ with followers := eng₁.followers.insert follower p' }

/-- The match index of a record, if it is kept under a node id. -/
def idMatch : PeerKey × FollowerProgress → Option Int
  | (.node _, p) => some p.matchIndex
  | (.addr _, _) => none

/-- The match indexes `check_and_advance_quorum_commit` collects: the leader's own last index, the
records of the active peers' addresses, and every record kept under a node id. -/
def matchIndices (peers : List Address) : List Int :=
  let ofPeers := peers.filterMap fun peer =>
    (eng.followers.get? (.addr peer)).map FollowerProgress.matchIndex
  eng.log.lastIndex :: ofPeers ++ eng.followers.items.filterMap idMatch

def quorumRequired (peers : List Address) : Nat := (peers.length + 1) / 2 + 1

/-- The test of the commit loop at one candidate index. -/
def hasQuorum (term : Int) (peers : List Address) (candidateIdx : Int) : Bool :=
  eng.log.getTerm candidateIdx = term ∧
    (eng.matchIndices peers).countP (fun m => m ≥ candidateIdx) ≥ quorumRequired peers

def checkAndAdvanceQuorumCommit (term : Int) (role : ElectionRole)
    (peers : List Address) (clock : Clock) : Engine × Except PyError Unit :=
  if role ≠ .leader then (eng, .ok ())
  else
    -- the candidates from the last index down to the one above the commit index
    let candidates := (intRange (eng.log.commitIndex + 1) (eng.log.lastIndex + 1)).reverse
    match candidates.find? (eng.hasQuorum term peers) with
    | none => (eng, .ok ())
    | some candidateIdx =>
      match eng.commitTo clock candidateIdx with
      | (eng₁, .error e) => (eng₁, .error e)
      | (eng₁, .ok _) => (eng₁, .ok ())

/-- The keys under which an answer is recorded: the follower id, the sender id and the address the
datagram came from, or the loopback address with the sender's port when no address is known. -/
def followerKeys (followerId senderId : String) (addr : Option Address) (senderUdpPort : Nat) :
    List PeerKey :=
  let ids := (if followerId = "" then [] else [PeerKey.node followerId]) ++
    (if senderId = "" then [] else [PeerKey.node senderId])
  let addrs :=
    match addr with
    | some a => [PeerKey.addr a]
    | none => if senderUdpPort = 0 then [] else [PeerKey.addr ⟨"127.0.0.1", senderUdpPort⟩]
  (ids ++ addrs).dedup

/-- The loop of `handle_append_entries_response` over the keys. -/
def recordAnswer (resp : AppendEntriesResponse) (keys : List PeerKey) : Engine :=
  keys.foldl (fun e key =>
    e.synchronizeFollowerProgress key resp.success resp.matchIndex resp.lastLogIndex) eng

def handleAppendEntriesResponse (term : Int) (role : ElectionRole)
    (peers : List Address) (clock : Clock) (resp : AppendEntriesResponse) (senderId : String)
    (addr : Option Address) (senderUdpPort : Nat) : Engine × Except PyError Unit :=
  let eng₁ := eng.recordAnswer resp (followerKeys resp.followerId senderId addr senderUdpPort)
  if resp.success then eng₁.checkAndAdvanceQuorumCommit term role peers clock else (eng₁, .ok ())

/-- `create_snapshot(last_included_index)`: the marker it reports and the exported state. -/
def createSnapshot (lastIncludedIndex : Option Int) (now : Rat) :
    Engine × (Int × Int × SnapshotData) :=
  let targetIdx := lastIncludedIndex.getD eng.log.lastApplied
  let data := eng.stateMachine.exportState now
  if targetIdx ≤ 0 then (eng, (0, 0, data))
  else
    let eng₁ := { eng with log := (eng.log.compactLogBefore targetIdx).1 }
    (eng₁, (eng₁.log.snapshotLastIndex, eng₁.log.snapshotLastTerm, data))

/-- `handle_install_snapshot_response`; a success may trigger a broadcast. -/
def handleInstallSnapshotResponse (term : Int) (role : ElectionRole)
    (peers : List Address) (now : Rat) (clock : Clock) (resp : InstallSnapshotResponse)
    (senderId : String) (addr : Option Address) (senderUdpPort : Nat) :
    Engine × Except PyError (List (Address × RaftMsg)) :=
  let record (e : Engine) (key : PeerKey) : Engine :=
    let e₁ := e.initializeFollower key
    match e₁.followers.get? key with
    | none => e₁
    | some p =>
      if resp.success then
        let m := max p.matchIndex resp.matchIndex
        { e₁ with followers := e₁.followers.insert key { p with matchIndex := m, nextIndex := m + 1 } }
      else e₁
  let eng₁ := (followerKeys resp.followerId senderId addr senderUdpPort).foldl record eng
  if resp.success then
    match eng₁.checkAndAdvanceQuorumCommit term role peers clock with
    | (eng₂, .error e) => (eng₂, .error e)
    | (eng₂, .ok ()) =>
      if eng₂.followers.values.any (fun f => f.nextIndex ≤ eng₂.log.lastIndex) then
        (eng₂, .ok (eng₂.broadcastAppendEntries term role peers now))
      else (eng₂, .ok [])
  else (eng₁, .ok [])

/-- `propose_command` up to the point where it returns, raises or starts to wait. -/
def proposeCommand (term : Int) (role : ElectionRole) (peers : List Address)
    (now : Rat) (clock : Clock) (command : Command) :
    Engine × Except PyError ProposeOutcome × List (Address × RaftMsg) :=
  if role ≠ .leader then
    (eng, .error (.runtimeError ("Cannot propose command on non-leader node (current role: " ++
      role.value ++ ")")), [])
  else
    let command' := { command with clientId := some (orStr command.clientId eng.nodeId) }
    match eng.log.appendCommand term command' now with
    | .error e => (eng, .error e, [])
    | .ok (log, entry) =>
      let eng₁ := { eng with log }
      if peers = [] then
        -- a single node commits at once
        match eng₁.commitTo clock entry.index with
        | (eng₂, .error e) => (eng₂, .error e, [])
        | (eng₂, .ok results) =>
          let result :=
            match results.getLast? with
            | some (_, res) => res
            | none => .value .none
          (eng₂, .ok (.returned result), [])
      else
        let fut := eng₁.proposals.length
        let eng₂ := { eng₁ with
          proposals := eng₁.proposals ++ [⟨entry, .pending⟩]
          pendingProposals := eng₁.pendingProposals.insert entry.index fut }
        (eng₂, .ok (.waiting fut), eng₂.broadcastAppendEntries term role peers now)

/-- The `TimeoutError` branch of `propose_command`: the future is cancelled and whatever is
registered under the entry's index is dropped. -/
def proposalTimeout (fut : Nat) : Engine :=
  match eng.proposals[fut]? with
  | some ⟨entry, .pending⟩ =>
    { eng with
      proposals := eng.proposals.set fut ⟨entry, .timedOut⟩
      pendingProposals := eng.pendingProposals.erase entry.index }
  | _ => eng

/-! ### The follower's side -/

def handleAppendEntriesRequest (currentTerm : Int) (clock : Clock)
    (req : AppendEntriesRequest) : Engine × Except PyError AppendEntriesResponse :=
  if req.term < currentTerm then
    (eng, .ok
      { term := currentTerm, followerId := eng.nodeId, success := false,
        matchIndex := eng.log.lastIndex, lastLogIndex := eng.log.lastIndex,
        errorMessage := some "Stale leader term" })
  else
    match eng.log.reconcileFollowerEntries req.prevLogIndex req.prevLogTerm req.entries with
    | (log, .error e) => ({ eng with log }, .error e)
    | (log, .ok (success, matchIdx)) =>
      let eng₁ := { eng with log }
      let respond (e : Engine) : AppendEntriesResponse :=
        { term := max currentTerm req.term, followerId := e.nodeId, success,
          matchIndex := if success then matchIdx else e.log.lastIndex,
          lastLogIndex := e.log.lastIndex }
      if success ∧ req.leaderCommit > eng₁.log.commitIndex then
        match eng₁.commitTo clock (min req.leaderCommit matchIdx) with
        | (eng₂, .error e) => (eng₂, .error e)
        | (eng₂, .ok _) => (eng₂, .ok (respond eng₂))
      else (eng₁, .ok (respond eng₁))

def handleInstallSnapshotRequest (currentTerm : Int)
    (req : InstallSnapshotRequest) : Engine × InstallSnapshotResponse :=
  if req.term < currentTerm then
    (eng,
      { term := currentTerm, followerId := eng.nodeId, success := false,
        matchIndex := eng.log.lastIndex, errorMessage := some "Stale leader term" })
  else
    ({ eng with
        stateMachine := .importState req.data
        log := eng.log.restoreSnapshot req.lastIncludedIndex req.lastIncludedTerm },
      { term := max currentTerm req.term, followerId := eng.nodeId, success := true,
        matchIndex := req.lastIncludedIndex })

/-! ### One input at a time -/

inductive EngineInput where
  | propose (command : Command) (now : Rat) (clock : Clock)
  | broadcast (now : Rat)
  | receive (pkt : Packet RaftMsg) (now : Rat) (clock : Clock)
  | timeout (fut : Nat)
  | createSnapshot (lastIncludedIndex : Option Int) (now : Rat)

/-- The engine after one input, and the messages it sends. Answers go back to where the datagram
came from; an exception in a handler is caught and logged by `datagram_received`. -/
def act (view : View) (peers : List Address) : EngineInput → Engine × List (Address × RaftMsg)
  | .propose command now clock =>
    let (eng', _, out) := eng.proposeCommand view.term view.role peers now clock command
    (eng', out)
  | .broadcast now => (eng, eng.broadcastAppendEntries view.term view.role peers now)
  | .receive pkt now clock =>
    match pkt.payload with
    | .appendEntriesRequest req =>
      match eng.handleAppendEntriesRequest view.term clock req with
      | (eng', .ok resp) => (eng', [(pkt.src, .appendEntriesResponse resp)])
      | (eng', .error _) => (eng', [])
    | .appendEntriesResponse resp =>
      ((eng.handleAppendEntriesResponse view.term view.role peers clock resp pkt.senderId
        (some pkt.src) 0).1, [])
    | .installSnapshotRequest req =>
      let (eng', resp) := eng.handleInstallSnapshotRequest view.term req
      (eng', [(pkt.src, .installSnapshotResponse resp)])
    | .installSnapshotResponse resp =>
      match eng.handleInstallSnapshotResponse view.term view.role peers now clock resp pkt.senderId
        (some pkt.src) 0 with
      | (eng', .ok out) => (eng', out)
      | (eng', .error _) => (eng', [])
  | .timeout fut => (eng.proposalTimeout fut, [])
  | .createSnapshot lastIncludedIndex now => ((eng.createSnapshot lastIncludedIndex now).1, [])

/-- An input with what the callbacks return during it, or a commit advance. -/
inductive NodeEvent where
  | handle (view : View) (peers : List Address) (input : EngineInput)
  | commit (i : Int) (clock : Clock)

def nodeStep : NodeEvent → Engine
  | .handle view peers input => (eng.act view peers input).1
  | .commit i clock => (eng.commitTo clock i).1

/-- The append request an event hands over, with the term the node reads. -/
def NodeEvent.request? : NodeEvent → Option (Int × AppendEntriesRequest)
  | .handle view _ (.receive ⟨_, _, _, .appendEntriesRequest req⟩ _ _) => some (view.term, req)
  | _ => none

/-- The snapshot an event hands over, with the term the node reads. -/
def NodeEvent.snapshot? : NodeEvent → Option (Int × InstallSnapshotRequest)
  | .handle view _ (.receive ⟨_, _, _, .installSnapshotRequest req⟩ _ _) => some (view.term, req)
  | _ => none

end RaftReplicationEngine

end MeshWeaver
