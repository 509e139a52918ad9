import MeshWeaver.Raft.LeaderFacts

/-!
# What an input does to the log and the state machine

Over any engine, compacted or not. An input changes the log, the state machine and the record of
calls in five ways only: a proposal appends, an accepted append request reconciles, `create_snapshot`
compacts, an accepted snapshot is installed, and entries are committed and applied.
`act_invariant` is the rule this gives for invariants of these three.
-/

namespace MeshWeaver

namespace RaftReplicationEngine

variable {eng eng' : Engine}

/-- The two engines differ in progress records and futures only. -/
structure SameCore (eng eng' : Engine) : Prop where
  log : eng'.log = eng.log
  stateMachine : eng'.stateMachine = eng.stateMachine
  applyCalls : eng'.applyCalls = eng.applyCalls

theorem SameCore.refl (eng : Engine) : SameCore eng eng := ⟨rfl, rfl, rfl⟩

theorem SameCore.trans {eng₁ : Engine} (h : SameCore eng eng₁) (h' : SameCore eng₁ eng') :
    SameCore eng eng' := ⟨h'.1.trans h.1, h'.2.trans h.2, h'.3.trans h.3⟩

theorem foldl_sameCore {f : Engine → PeerKey → Engine} (hf : ∀ e key, SameCore e (f e key)) :
    ∀ keys eng, SameCore eng (List.foldl f eng keys)
  | [], eng => .refl eng
  | key :: keys, eng => (hf eng key).trans (foldl_sameCore hf keys (f eng key))

def entryFor (eng : Engine) (term : Int) (command : Command) (now : Rat) : LogEntry :=
  { index := eng.log.lastIndex + 1, term, commandType := command.commandType, key := command.key,
    value := command.value, clientId := some (orStr command.clientId eng.nodeId), timestamp := now,
    fencingToken := command.fencingToken, extraData := .dict command.extraData }

def append (eng : Engine) (e : LogEntry) : Engine :=
  { eng with log := { eng.log with entries := eng.log.entries ++ [e] } }

def reconciled (eng : Engine) (req : AppendEntriesRequest) : Engine :=
  { eng with log := (eng.log.reconcileFollowerEntries req.prevLogIndex req.prevLogTerm req.entries).1 }

def compacted (eng : Engine) (i : Int) : Engine :=
  { eng with log := (eng.log.compactLogBefore i).1 }

def installed (eng : Engine) (req : InstallSnapshotRequest) : Engine :=
  { eng with
    stateMachine := .importState req.data
    log := eng.log.restoreSnapshot req.lastIncludedIndex req.lastIncludedTerm }

theorem handleInstallSnapshotRequest_eq {term : Int} {req : InstallSnapshotRequest} (hterm : term ≤ req.term) :
    (eng.handleInstallSnapshotRequest term req).1 = eng.installed req := by
  rw [handleInstallSnapshotRequest, if_neg (by omega)]
  rfl

section Handlers

variable {P : Engine → Prop} (hcore : ∀ {eng eng'}, SameCore eng eng' → P eng → P eng')
  (hcommit : ∀ eng clock i, P eng → P (commitTo clock i eng).1)

include hcommit in
theorem checkAndAdvanceQuorumCommit_invariant (term : Int) (role : ElectionRole)
    (peers : List Address) (clock : Clock) (h : P eng) :
    P (eng.checkAndAdvanceQuorumCommit term role peers clock).1 := by
  unfold checkAndAdvanceQuorumCommit
  split_ifs
  · exact h
  · dsimp only
    split
    · exact h
    · rename_i i _
      have hc := hcommit eng clock i h
      rcases hres : commitTo clock i eng with ⟨eng₁, out⟩
      rw [hres] at hc
      cases out <;> exact hc

include hcore hcommit in
theorem proposeCommand_invariant {term : Int} {role : ElectionRole} {peers : List Address}
    {now : Rat} {command : Command} (clock : Clock) (h : P eng)
    (happend : P (eng.append (eng.entryFor term command now))) :
    P (eng.proposeCommand term role peers now clock command).1 := by
  by_cases hrole : role = .leader
  · simp only [proposeCommand, ne_eq, hrole, not_true_eq_false, if_false, RaftLog.appendCommand,
      RaftLog.appendEntry_next]
    by_cases hpeers : peers = []
    · rw [if_pos hpeers]
      have hc := hcommit _ clock (eng.log.lastIndex + 1) happend
      simp only [append, entryFor] at hc
      split <;> (rename_i heq; rw [heq] at hc; exact hc)
    · rw [if_neg hpeers]
      refine hcore ?_ happend
      exact ⟨rfl, rfl, rfl⟩
  · rwa [proposeCommand, if_pos hrole]

theorem handleAppendEntriesRequest_invariant {term : Int} {req : AppendEntriesRequest}
    {clock : Clock} (h : P eng) (hreconcile : term ≤ req.term → P (eng.reconciled req))
    (hcommit : ∀ eng i, i ≤ req.leaderCommit → P eng → P (commitTo clock i eng).1) :
    P (eng.handleAppendEntriesRequest term clock req).1 := by
  unfold handleAppendEntriesRequest
  by_cases hstale : req.term < term
  · rwa [if_pos hstale]
  rw [if_neg hstale]
  have hr := hreconcile (by omega)
  unfold reconciled at hr
  rcases hrec : eng.log.reconcileFollowerEntries req.prevLogIndex req.prevLogTerm req.entries with
    ⟨log, e | ⟨success, matchIdx⟩⟩ <;> rw [hrec] at hr
  · exact hr
  · dsimp only
    by_cases hlc : success = true ∧ req.leaderCommit > log.commitIndex
    · rw [if_pos hlc]
      have hc := hcommit _ (min req.leaderCommit matchIdx) (min_le_left _ _) hr
      split <;> (rename_i heq; rw [heq] at hc; exact hc)
    · rwa [if_neg hlc]

include hcore hcommit in
theorem handleAppendEntriesResponse_invariant (term : Int) (role : ElectionRole)
    (peers : List Address) (clock : Clock) (resp : AppendEntriesResponse) (senderId : String)
    (addr : Option Address) (port : Nat) (h : P eng) :
    P (eng.handleAppendEntriesResponse term role peers clock resp senderId addr port).1 := by
  obtain ⟨followers, heq⟩ :=
    recordAnswer_eq resp (followerKeys resp.followerId senderId addr port) eng
  have h₁ : P { eng with followers } := by
    refine hcore ?_ h
    exact ⟨rfl, rfl, rfl⟩
  unfold handleAppendEntriesResponse
  dsimp only
  rw [heq]
  split_ifs
  · exact checkAndAdvanceQuorumCommit_invariant hcommit term role peers clock h₁
  · exact h₁

include hcore hcommit in
theorem handleInstallSnapshotResponse_invariant (term : Int) (role : ElectionRole)
    (peers : List Address) (now : Rat) (clock : Clock) (resp : InstallSnapshotResponse)
    (senderId : String) (addr : Option Address) (port : Nat) (h : P eng) :
    P (eng.handleInstallSnapshotResponse term role peers now clock resp senderId addr port).1 := by
  unfold handleInstallSnapshotResponse
  dsimp only
  generalize hrec : List.foldl _ eng _ = eng₁
  have h₁ : P eng₁ := by
    rw [← hrec]
    refine hcore (foldl_sameCore (fun e key => ?_) _ eng) h
    obtain ⟨followers, heq⟩ := initializeFollower_eq e key
    rw [heq]
    split
    · exact ⟨rfl, rfl, rfl⟩
    · split_ifs <;> exact ⟨rfl, rfl, rfl⟩
  split_ifs
  · have h₂ := checkAndAdvanceQuorumCommit_invariant hcommit term role peers clock h₁
    split
    · rename_i heq
      rw [heq] at h₂
      exact h₂
    · rename_i heq
      rw [heq] at h₂
      split_ifs <;> exact h₂
  · exact h₁

include hcore hcommit in
/-- **The rule for inputs**: an invariant of the log, the state machine and the record of calls that
committing preserves is preserved by an input, if what the input itself does preserves it. -/
theorem act_invariant {view : View} {peers : List Address} {input : EngineInput} (h : P eng)
    (happend : ∀ command now clock, input = .propose command now clock →
      P (eng.append (eng.entryFor view.term command now)))
    (hcompact : ∀ i now, input = .createSnapshot i now →
      P (eng.compacted (i.getD eng.log.lastApplied)))
    (hreconcile : ∀ pkt now clock req, input = .receive pkt now clock →
      pkt.payload = .appendEntriesRequest req → view.term ≤ req.term → P (eng.reconciled req))
    (hinstall : ∀ pkt now clock req, input = .receive pkt now clock →
      pkt.payload = .installSnapshotRequest req → view.term ≤ req.term → P (eng.installed req)) :
    P (eng.act view peers input).1 := by
  cases input with
  | propose command now clock =>
    exact proposeCommand_invariant hcore hcommit clock h (happend command now clock rfl)
  | broadcast now => exact h
  | timeout fut =>
    obtain ⟨hlog, -, -, hsm, hcalls⟩ := proposalTimeout_kept eng fut
    exact hcore ⟨hlog, hsm, hcalls⟩ h
  | createSnapshot i now =>
    simp only [act, createSnapshot]
    split_ifs
    · exact h
    · exact hcompact i now rfl
  | receive pkt now clock =>
    rw [act]
    cases hpay : pkt.payload with
    | appendEntriesRequest req =>
      have hreq := handleAppendEntriesRequest_invariant h (hreconcile pkt now clock req rfl hpay)
        (fun eng i _ => hcommit eng clock i)
      dsimp only
      split <;> (rename_i heq; rw [heq] at hreq; exact hreq)
    | appendEntriesResponse resp =>
      exact handleAppendEntriesResponse_invariant hcore hcommit _ _ _ _ _ _ _ _ h
    | installSnapshotRequest req =>
      dsimp only
      unfold handleInstallSnapshotRequest
      split_ifs with hstale
      · exact h
      · exact hinstall pkt now clock req rfl hpay (by omega)
    | installSnapshotResponse resp =>
      have hresp := handleInstallSnapshotResponse_invariant hcore hcommit view.term view.role peers
        now clock resp pkt.senderId (some pkt.src) 0 h
      dsimp only
      split <;> (rename_i heq; rw [heq] at hresp; exact hresp)

end Handlers

end RaftReplicationEngine

end MeshWeaver
