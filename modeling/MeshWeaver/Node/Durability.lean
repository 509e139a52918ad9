import MeshWeaver.Raft.Inputs
import MeshWeaver.Transactions.Logged
import MeshWeaver.Transactions.Participant

/-!
# What a crash leaves of acknowledged commands

A `MeshNode` hands its write-ahead log to the replication engine and to the transaction coordinator, and
both work on one state machine. Only the coordinator appends to the log: the replication engine keeps the
reference and never uses it. So the log is that of the same run without the commands, and no entry of the
Raft log is recovered.
-/

namespace MeshWeaver

open Lib TransactionCoordinator

/-! ### The coordinator over another store -/

namespace TransactionCoordinator

variable (c : TransactionCoordinator) (sm : ReplicatedStateMachine)

def onStore : TransactionCoordinator := { c with stateMachine := some sm }

theorem grantLocks_onStore (txId : String) (keys : List String) :
    (c.onStore sm).grantLocks txId keys = ((c.grantLocks txId keys).1.onStore sm, (c.grantLocks txId keys).2) := by
  suffices h : ∀ tokens, keys.foldl (grantKey txId) (c.onStore sm, tokens) =
      ((keys.foldl (grantKey txId) (c, tokens)).1.onStore sm, (keys.foldl (grantKey txId) (c, tokens)).2) from
    h .empty
  induction keys generalizing c with
  | nil => exact fun _ => rfl
  | cons key keys ih => exact fun tokens => ih (grantKey txId (c, tokens) key).1 _

theorem prepareTransaction_onStore (now : Rat) (txId : String) (context : Option TransactionContext) :
    (c.onStore sm).prepareTransaction now txId context =
      ((c.prepareTransaction now txId context).1.onStore sm, (c.prepareTransaction now txId context).2) := by
  unfold prepareTransaction
  rw [show (c.onStore sm).activeTxs = c.activeTxs from rfl]
  cases c.activeTxs.get? txId with
  | none => rfl
  | some record =>
    dsimp only
    generalize record.withContext context = tx
    by_cases hexpired : tx.isExpired now = true
    · rw [if_pos hexpired, if_pos hexpired]
      rfl
    · rw [if_neg hexpired, if_neg hexpired, show (c.onStore sm).keyVersions = c.keyVersions from rfl,
        show (c.onStore sm).lockConflict? txId tx.writeSet.keys =
          c.lockConflict? txId tx.writeSet.keys from rfl]
      cases c.lockConflict? txId tx.writeSet.keys with
      | some conflict => rfl
      | none =>
        cases c.keyVersions.mismatch? tx.operations with
        | some mismatch => rfl
        | none =>
          rw [grantLocks_onStore]
          rfl

theorem rollbackTransaction_onStore (now : Rat) (txId : String) (reason : Option String) :
    (c.onStore sm).rollbackTransaction now txId reason =
      ((c.rollbackTransaction now txId reason).1.onStore sm, (c.rollbackTransaction now txId reason).2) := by
  unfold rollbackTransaction
  rw [show (c.onStore sm).activeTxs = c.activeTxs from rfl]
  cases c.activeTxs.get? txId <;> rfl

theorem applyOperations_versions (operations : List TxOperation) (sm sm' : ReplicatedStateMachine)
    (versions : Versions) :
    (applyOperations .values operations (sm, versions)).1.2 =
      (applyOperations .values operations (sm', versions)).1.2 := by
  induction operations generalizing sm sm' versions with
  | nil => rfl
  | cons op operations ih =>
    obtain ⟨sm₁, h⟩ := op.apply_values sm
    obtain ⟨sm₂, h'⟩ := op.apply_values sm'
    rw [applyOperations, applyOperations, h, h']
    exact ih sm₁ sm₂ (versions.bump op.key)

theorem finishCommit_onStore (sm' : ReplicatedStateMachine) (now : Rat) (txId : String) (tx : TxRecord) :
    ∃ sm'', (c.onStore sm).finishCommit .values now txId tx =
      (((c.onStore sm').finishCommit .values now txId tx).1.onStore sm'', .ok ()) := by
  refine ⟨(applyOperations .values tx.operations (sm, c.keyVersions)).1.1, ?_⟩
  rw [finishCommit_values, finishCommit_values]
  unfold applySection settle onStore
  dsimp only
  rw [applyOperations_versions tx.operations sm sm' c.keyVersions]

theorem promiseKey_onStore (txId : String) (keys : List String) (tokens : Dict String Int) :
    keys.foldl (promiseKey txId) (c.onStore sm, tokens) =
      ((keys.foldl (promiseKey txId) (c, tokens)).1.onStore sm,
        (keys.foldl (promiseKey txId) (c, tokens)).2) := by
  induction keys generalizing c tokens with
  | nil => rfl
  | cons key keys ih => exact ih (promiseKey txId (c, tokens) key).1 _

theorem handle_onStore (sm' : ReplicatedStateMachine) (msg : TxMessage) :
    ((c.onStore sm).handle msg).1 = ((c.onStore sm').handle msg).1.onStore sm := by
  cases msg with
  | prepare tx txId =>
    cases tx with
    | none => rfl
    | some tx =>
      have h := fun sm => (c.withTx tx.txId tx).promiseKey_onStore sm tx.txId tx.writeSet.keys .empty
      change (tx.writeSet.keys.foldl (promiseKey tx.txId) ((c.withTx tx.txId tx).onStore sm, .empty)).1 =
        (tx.writeSet.keys.foldl (promiseKey tx.txId) ((c.withTx tx.txId tx).onStore sm', .empty)).1.onStore sm
      rw [h sm, h sm']
      rfl
  | commit txId =>
    rw [handle, handle, handleTxCommit, handleTxCommit]
    rw [show (c.onStore sm).activeTxs = c.activeTxs from rfl,
      show (c.onStore sm').activeTxs = c.activeTxs from rfl]
    cases c.activeTxs.get? txId with
    | none => rfl
    | some tx =>
      dsimp only
      cases tx.operations with
      | nil => rfl
      | cons op operations =>
        rfl
  | abort txId =>
    rw [handle, handle, handleTxAbort, handleTxAbort]
    rw [show (c.onStore sm).activeTxs = c.activeTxs from rfl,
      show (c.onStore sm').activeTxs = c.activeTxs from rfl]
    cases c.activeTxs.get? txId <;> rfl

end TransactionCoordinator

namespace CallSystem

variable (s : CallSystem) (sm sm' : ReplicatedStateMachine)

def onStore : CallSystem := { s with coordinator := s.coordinator.onStore sm }

theorem prepare_onStore (now : Rat) (txId : String) (context : Option TransactionContext) :
    (s.onStore sm).prepare now txId context =
      ((s.prepare now txId context).1.onStore sm, (s.prepare now txId context).2) := by
  unfold prepare onStore
  rw [prepareTransaction_onStore]
  rfl

theorem rollback_onStore (now : Rat) (txId : String) (reason : Option String) :
    (s.onStore sm).rollback now txId reason = (s.rollback now txId reason).onStore sm := by
  unfold rollback onStore
  rw [rollbackTransaction_onStore]

theorem proceed_onStore (k : Nat) (call : CommitCall) (now : Rat) :
    ∃ sm'', (s.onStore sm).proceed .values k call now = ((s.onStore sm').proceed .values k call now).onStore sm'' := by
  unfold proceed
  rw [show (s.onStore sm).record? = s.record? from rfl, show (s.onStore sm').record? = s.record? from rfl]
  cases call.phase with
  | lookup => cases s.record? call.txId <;> exact ⟨sm, rfl⟩
  | prepare =>
    refine ⟨sm, ?_⟩
    rw [prepare_onStore, prepare_onStore]
    rfl
  | apply =>
    cases s.record? call.txId with
    | none => exact ⟨sm, rfl⟩
    | some tx =>
      obtain ⟨sm'', h⟩ := s.coordinator.finishCommit_onStore sm sm' now call.txId tx
      refine ⟨sm'', ?_⟩
      dsimp only [onStore]
      rw [h, (s.coordinator.onStore sm').finishCommit_values]
      rfl
  | abort reason =>
    refine ⟨sm, ?_⟩
    dsimp only
    rw [rollback_onStore, rollback_onStore]
    rfl
  | returned answer => exact ⟨sm, rfl⟩

theorem step_onStore (ev : CallEvent) :
    ∃ sm'', (s.onStore sm).step .values ev = ((s.onStore sm').step .values ev).onStore sm'' := by
  cases ev with
  | begin uuid isolationLevel timeoutSeconds now =>
    refine ⟨sm, ?_⟩
    rw [step, step, show (s.onStore sm).record? = s.record? from rfl,
      show (s.onStore sm').record? = s.record? from rfl]
    cases s.record? ("tx_" ++ uuid) <;> rfl
  | prepare now txId context =>
    refine ⟨sm, ?_⟩
    rw [step, step, prepare_onStore, prepare_onStore]
    rfl
  | commit txId context passed => exact ⟨sm, rfl⟩
  | rollback now txId reason =>
    refine ⟨sm, ?_⟩
    rw [step, step, rollback_onStore, rollback_onStore]
    rfl
  | proceed k now =>
    rw [step, step, show (s.onStore sm).calls = s.calls from rfl,
      show (s.onStore sm').calls = s.calls from rfl]
    cases s.calls[k]? with
    | none => exact ⟨sm, rfl⟩
    | some call => exact s.proceed_onStore sm sm' k call now

theorem prepareMarker_onStore (now : Rat) (txId : String) (context : Option TransactionContext) :
    (s.onStore sm).prepareMarker now txId context = s.prepareMarker now txId context := by
  unfold prepareMarker
  rw [prepare_onStore]
  rfl

theorem markers_onStore (ev : CallEvent) : (s.onStore sm).markers .values ev = (s.onStore sm').markers .values ev := by
  cases ev with
  | begin uuid isolationLevel timeoutSeconds now => rfl
  | prepare now txId context =>
    rw [markers, markers, prepareMarker_onStore, prepareMarker_onStore]
  | commit txId context passed | rollback now txId reason => rfl
  | proceed k now =>
    rw [markers, markers, show (s.onStore sm).calls = s.calls from rfl,
      show (s.onStore sm').calls = s.calls from rfl]
    cases s.calls[k]? with
    | none => rfl
    | some call =>
      dsimp only
      rw [prepareMarker_onStore, prepareMarker_onStore]
      simp only [finishCommit_values]
      rfl

end CallSystem

/-! ### The node -/

/-- The parts of a `MeshNode` that work on its state machine, what has been appended to its log, and the
entries of the commands that `propose_command` has returned a result for. The state machine is that of the
replication engine. -/
structure MeshNode where
  nodeId : String
  raft : RaftReplicationEngine
  calls : CallSystem
  wal : List WALAppend
  acknowledged : List LogEntry

/-- What happens at a node: an input of the replication engine, with what its callbacks return; a section
of the transaction coordinator; a datagram of a two-phase commit; a crash, after which the node starts
again. -/
inductive MeshEvent where
  | raft (view : View) (peers : List Address) (input : RaftReplicationEngine.EngineInput)
  | call (ev : CallEvent)
  | message (msg : TxMessage)
  | restart (clock times : Clock)

def MeshEvent.isRaft : MeshEvent → Bool
  | .raft .. => true
  | _ => false

def FutureState.isResolved : FutureState → Bool
  | .resolved _ => true
  | _ => false

namespace RaftReplicationEngine

def newlyResolved (eng eng' : Engine) : List LogEntry :=
  (eng'.proposals.zipIdx.filter fun item =>
    item.1.state.isResolved && !(eng.proposals[item.2]?.any fun p => p.state.isResolved)).map
    fun item => item.1.entry

/-- The entries of the commands that an input acknowledges: that of a proposal that returns at once, and
those whose futures get a result. -/
def acknowledges (eng : Engine) (view : View) (peers : List Address) (input : EngineInput) :
    List LogEntry :=
  let atOnce : List LogEntry :=
    match input with
    | .propose command now clock =>
      match (eng.proposeCommand view.term view.role peers now clock command).2.1 with
      | .ok (.returned _) => [eng.entryFor view.term command now]
      | _ => []
    | _ => []
  atOnce ++ eng.newlyResolved (eng.act view peers input).1

end RaftReplicationEngine

namespace MeshNode

def start (nodeId : String) : MeshNode :=
  { nodeId, raft := .init nodeId, calls := .init nodeId (some .empty), wal := [], acknowledged := [] }

variable (n : MeshNode)

/-- The coordinator with its calls, over the node's state machine. -/
def transactions : CallSystem := n.calls.onStore n.raft.stateMachine

def withTransactions (calls : CallSystem) (appends : List WALAppend) : MeshNode :=
  { n with
    calls
    raft := { n.raft with
      stateMachine := calls.coordinator.stateMachine.getD n.raft.stateMachine }
    wal := n.wal ++ appends }

/-- `CrashRecoveryManager.recover` of a node that starts, over what was appended to its log. -/
def recovered (clock times : Clock) : Recovered :=
  Recovered.recover clock times (WALAppend.records n.wal) (some .empty) (some .empty)

def step : MeshEvent → MeshNode
  | .raft view peers input =>
    { n with
      raft := (n.raft.act view peers input).1
      acknowledged := n.acknowledged ++ n.raft.acknowledges view peers input }
  | .call ev => n.withTransactions (n.transactions.step .values ev) (n.transactions.markers .values ev)
  | .message msg =>
    n.withTransactions
      { n.transactions with coordinator := (n.transactions.coordinator.handle msg).1 } []
  | .restart clock times =>
    let r := n.recovered clock times
    let sm := r.stateMachine.getD .empty
    { n with
      raft := { RaftReplicationEngine.init n.nodeId with
        log := r.raftLog.getD .empty, stateMachine := sm }
      calls := .init n.nodeId (some sm) }

def after (nodeId : String) (events : List MeshEvent) : MeshNode := run step (start nodeId) events

end MeshNode

/-! ### The log holds markers of transactions only -/

theorem CallSystem.markers_recordType (s : CallSystem) (ev : CallEvent) :
    ∀ a ∈ s.markers .values ev, a.recordType = .txMarker := by
  have hprepare : ∀ now txId context, ∀ a ∈ s.prepareMarker now txId context,
      a.recordType = .txMarker := by
    intro now txId context
    unfold prepareMarker
    dsimp only
    cases (s.prepare now txId context).1.record? txId with
    | none => simp
    | some tx =>
      split_ifs <;> simp [WALAppend.prepare]
  have hrollback : ∀ txId reason, ∀ a ∈ s.rollbackMarker txId reason, a.recordType = .txMarker := by
    intro txId reason
    unfold rollbackMarker
    cases s.record? txId <;> simp [WALAppend.abort]
  cases ev with
  | begin uuid isolationLevel timeoutSeconds now =>
    rw [markers]
    cases s.record? ("tx_" ++ uuid) <;> simp [WALAppend.begin]
  | prepare now txId context => exact hprepare now txId context
  | commit txId context passed => simp [markers]
  | rollback now txId reason => exact hrollback txId reason
  | proceed k now =>
    rw [markers]
    cases s.calls[k]? with
    | none => simp
    | some call =>
      dsimp only
      cases call.phase with
      | lookup => simp
      | prepare => exact hprepare now _ _
      | apply => cases s.record? call.txId <;> simp [finishCommit_values, WALAppend.commit]
      | abort reason => exact hrollback _ reason
      | returned answer => simp

namespace Recovered

/-- **What a marker can change** is the state machine, by what the marker holds. -/
theorem replay_marker (clock times : Clock) {s s' : Recovered} {record record' : WALRecord}
    (h : record.recordType = .txMarker) (hrecord : record.appended = record'.appended)
    (hs : s.stateMachine = s'.stateMachine) :
    (s.replay clock times record).raftLog = s.raftLog ∧
      (s.replay clock times record).stateMachine = (s'.replay clock times record').stateMachine := by
  have htally : ∀ out : Recovered × Except PyError Unit,
      (tally out).raftLog = out.1.raftLog ∧ (tally out).stateMachine = out.1.stateMachine := by
    rintro ⟨s', outcome⟩
    cases outcome <;> exact ⟨rfl, rfl⟩
  have htype : record'.recordType = .txMarker := (congrArg WALAppend.recordType hrecord).symm.trans h
  have hget : record.get? = record'.get? :=
    congrArg (fun payload key => Dict.lookup key payload) (congrArg WALAppend.payload hrecord)
  unfold replay
  rw [h, htype]
  dsimp only
  rw [(htally _).1, (htally _).2, (htally _).2]
  unfold replayTxMarker
  rw [hget]
  split_ifs
  · dsimp only
    rw [← hs]
    cases s.stateMachine with
    | none => exact ⟨rfl, rfl⟩
    | some sm =>
      dsimp only
      split <;> exact ⟨rfl, rfl⟩
  · exact ⟨rfl, hs⟩

theorem recover_markers (clock times : Clock) {records records' : List WALRecord}
    (h : ∀ record ∈ records, record.recordType = .txMarker)
    (hrecords : records.map WALRecord.appended = records'.map WALRecord.appended)
    (sm : Option ReplicatedStateMachine) (log : Option RaftLog) :
    (recover clock times records sm log).raftLog = log ∧
      (recover clock times records sm log).stateMachine = (recover clock times records' sm log).stateMachine := by
  suffices hs : ∀ s s' : Recovered, s.stateMachine = s'.stateMachine →
      (run (fun s record => s.replay clock times record) s records).raftLog = s.raftLog ∧
        (run (fun s record => s.replay clock times record) s records).stateMachine =
          (run (fun s record => s.replay clock times record) s' records').stateMachine from
    hs (start sm log) (start sm log) rfl
  induction records generalizing records' with
  | nil =>
    rw [List.map_eq_nil_iff.mp hrecords.symm]
    exact fun s s' hs => ⟨rfl, hs⟩
  | cons record records ih =>
    obtain ⟨record', rest', rfl, hrecord, hrest⟩ := List.map_eq_cons_iff.mp hrecords.symm
    intro s s' hs
    obtain ⟨hlog, hsm⟩ := replay_marker clock times (h record List.mem_cons_self) hrecord.symm hs
    obtain ⟨hlog', hsm'⟩ := ih (fun r hr => h r (List.mem_cons_of_mem _ hr)) hrest.symm _ _ hsm
    exact ⟨hlog'.trans hlog, hsm'⟩

end Recovered

namespace MeshNode

theorem wal_recordType (nodeId : String) (events : List MeshEvent) :
    ∀ a ∈ (after nodeId events).wal, a.recordType = .txMarker := by
  refine run_invariant (I := fun n : MeshNode => ∀ a ∈ n.wal, a.recordType = .txMarker)
    (fun n ev hn => ?_) (fun a ha => absurd ha List.not_mem_nil) events
  cases ev with
  | raft view peers input => exact hn
  | call ev =>
    intro a ha
    rcases List.mem_append.mp ha with ha | ha
    · exact hn a ha
    · exact n.transactions.markers_recordType ev a ha
  | message msg =>
    intro a ha
    rcases List.mem_append.mp ha with ha | ha
    · exact hn a ha
    · cases ha
  | restart clock times => exact hn

/-- **The two nodes differ in what the commands did**: the coordinators agree, their store apart, and so
do the logs. -/
structure Like (n n' : MeshNode) : Prop where
  nodeId : n.nodeId = n'.nodeId
  calls : ∀ sm, n.calls.onStore sm = n'.calls.onStore sm
  wal : n.wal = n'.wal

variable {n n' : MeshNode}

theorem Like.raft (h : Like n n') (view : View) (peers : List Address)
    (input : RaftReplicationEngine.EngineInput) : Like (n.step (.raft view peers input)) n' :=
  ⟨h.nodeId, h.calls, h.wal⟩

theorem Like.step (h : Like n n') {ev : MeshEvent} (hev : ev.isRaft = false) : Like (n.step ev) (n'.step ev) := by
  cases ev with
  | raft view peers input => cases hev
  | call ev =>
    obtain ⟨sm, hstep⟩ := n'.calls.step_onStore n.raft.stateMachine n'.raft.stateMachine ev
    have hcalls : n.transactions = n'.calls.onStore n.raft.stateMachine := h.calls _
    refine ⟨h.nodeId, fun sm' => ?_, ?_⟩
    · change (n.transactions.step .values ev).onStore sm' = (n'.transactions.step .values ev).onStore sm'
      rw [hcalls, hstep]
      rfl
    · change n.wal ++ n.transactions.markers .values ev = n'.wal ++ n'.transactions.markers .values ev
      rw [h.wal, hcalls, n'.calls.markers_onStore _ n'.raft.stateMachine]
      rfl
  | message msg =>
    have hcalls : n.transactions = n'.calls.onStore n.raft.stateMachine := h.calls _
    refine ⟨h.nodeId, fun sm' => ?_, congrArg (· ++ []) h.wal⟩
    change CallSystem.onStore { n.transactions with coordinator := _ } sm' = _
    rw [hcalls]
    dsimp only [CallSystem.onStore]
    rw [n'.calls.coordinator.handle_onStore _ n'.raft.stateMachine]
    rfl
  | restart clock times =>
    refine ⟨h.nodeId, fun sm' => ?_, h.wal⟩
    change (CallSystem.init n.nodeId _).onStore sm' = (CallSystem.init n'.nodeId _).onStore sm'
    rw [h.nodeId]
    rfl

theorem wal_without_raft (nodeId : String) (events : List MeshEvent) :
    (after nodeId events).wal = (after nodeId (events.filter fun ev => !ev.isRaft)).wal := by
  suffices h : ∀ n n', Like n n' →
      Like (run step n events) (run step n' (events.filter fun ev => !ev.isRaft)) from
    (h _ _ ⟨rfl, fun _ => rfl, rfl⟩).wal
  induction events with
  | nil => exact fun _ _ h => h
  | cons ev events ih =>
    intro n n' h
    cases hev : ev.isRaft with
    | true =>
      cases ev with
      | raft view peers input => exact ih _ _ (h.raft view peers input)
      | _ => cases hev
    | false =>
      rw [List.filter_cons_of_pos (by rw [hev]; rfl), run_cons, run_cons]
      exact ih _ _ (h.step hev)

/-- **No acknowledged command survives a crash.** After every run, whatever records hold what was appended
to the log: no acknowledged entry is in the recovered Raft log, and the recovered state machine is that of
the same run without the commands. -/
theorem acknowledged_not_recovered (clock times : Clock) (nodeId : String) (events : List MeshEvent)
    (records : List WALRecord) (hrecords : records.map WALRecord.appended = (after nodeId events).wal) :
    let recovered := Recovered.recover clock times records (some .empty) (some .empty)
    let without := after nodeId (events.filter fun ev => !ev.isRaft)
    (∀ e ∈ (after nodeId events).acknowledged, ¬ ∃ log ∈ recovered.raftLog, e ∈ log.entries) ∧
      (after nodeId events).wal = without.wal ∧
      recovered.stateMachine = (without.recovered clock times).stateMachine := by
  intro recovered without
  have hwal := wal_without_raft nodeId events
  have hmarkers : ∀ record ∈ records, record.recordType = .txMarker := fun record hrecord =>
    wal_recordType nodeId events _ (hrecords ▸ List.mem_map_of_mem (f := WALRecord.appended) hrecord)
  obtain ⟨hlog, hsm⟩ := Recovered.recover_markers clock times hmarkers
    (hrecords.trans (hwal.trans (WALAppend.appended_records without.wal).symm)) (some .empty) (some .empty)
  refine ⟨?_, hwal, hsm⟩
  rintro e - ⟨log, hmem, he⟩
  rw [show recovered.raftLog = some .empty from hlog] at hmem
  cases hmem
  cases he

def settingX : Command :=
  { commandType := .set, key := some "x", value := .int 1, clientId := none, fencingToken := none,
    extraData := [] }

def alone : List MeshEvent :=
  [.raft ⟨1, .leader⟩ [] (.propose settingX 0 fun _ => 0), .call (.begin "1" .serializable 10 0),
    .call (.commit "tx_1" (CallSystem.settingKeys "tx_1" ["y"]) true), .call (.proceed 0 1),
    .call (.proceed 0 1), .call (.proceed 0 1)]

theorem acknowledged_not_recovered_alone :
    let records := WALAppend.records (after "a" alone).wal
    let recovered := Recovered.recover (fun _ => 0) (fun _ => 0) records (some .empty) (some .empty)
    ∃ e ∈ (after "a" alone).acknowledged, ¬ ∃ log ∈ recovered.raftLog, e ∈ log.entries := by
  intro records recovered
  have h := (acknowledged_not_recovered (fun _ => 0) (fun _ => 0) "a" alone records
    (WALAppend.appended_records _)).1
  have hentry : (after "a" alone).acknowledged ≠ [] := by decide +kernel
  obtain ⟨e, he⟩ := List.exists_mem_of_ne_nil _ hentry
  exact ⟨e, he, h e he⟩

/-- The node has acknowledged the command and applied it. After a restart its log is empty, and of the two
keys only the one of the transaction is there. -/
theorem acknowledged_command_lost :
    let before := after "a" alone
    let restarted := before.step (.restart (fun _ => 0) fun _ => 0)
    before.acknowledged.map (fun e => (e.index, e.key, e.value)) = [(1, some "x", .int 1)] ∧
      before.raft.stateMachine.get "x" = some (.int 1) ∧
      before.raft.stateMachine.get "y" = some (.int 1) ∧
      restarted.raft.log.entries = [] ∧ restarted.raft.stateMachine.get "x" = none ∧
      restarted.raft.stateMachine.get "y" = some (.int 1) := by
  decide +kernel

end MeshNode

end MeshWeaver
