import MeshWeaver.Transactions.Calls
import MeshWeaver.Wal.Recovery

/-!
# Transactions and the write-ahead log

The coordinator appends a marker for every transaction that is begun, prepared, committed or rolled back. A section
and the append that follows it are one step: nothing suspends between them. The marker of a commit lists the
operations as dictionaries, and recovery interprets these on its own; the two interpreters agree.
-/

namespace MeshWeaver

open Lib Recovered
open TransactionCoordinator

def TxOperationType.value : TxOperationType → String
  | .set => "SET"
  | .delete => "DELETE"
  | .increment => "INCREMENT"

def TxIsolationLevel.value : TxIsolationLevel → String
  | .readCommitted => "READ_COMMITTED"
  | .repeatableRead => "REPEATABLE_READ"
  | .serializable => "SERIALIZABLE"

def TxOperation.toDict (op : TxOperation) : Value :=
  .dict
    [("op_type", .str op.opType.value), ("key", .str op.key), ("value", op.value),
      ("delta", .int op.delta), ("expected_version", .ofOptInt op.expectedVersion)]

/-- The arguments of an `append` to the log. -/
structure WALAppend where
  recordType : WALRecordType
  payload : List (String × Value)

/-- What was appended when the record was written. -/
def WALRecord.appended (record : WALRecord) : WALAppend := ⟨record.recordType, record.payload⟩

namespace WALAppend

def records (appends : List WALAppend) : List WALRecord :=
  appends.zipIdx.map fun item =>
    { seqNo := item.2 + 1, recordType := item.1.recordType, payload := item.1.payload, timestamp := 0,
      crc32 := 0 }

theorem appended_records (appends : List WALAppend) : (records appends).map WALRecord.appended = appends := by
  rw [records, List.map_map]
  exact List.zipIdx_map_fst 0 appends

def begin (txId : String) (isolationLevel : TxIsolationLevel) : WALAppend :=
  { recordType := .txMarker
    payload :=
      [("action", .str "BEGIN"), ("tx_id", .str txId), ("isolation_level", .str isolationLevel.value)] }

def prepare (txId : String) (tx : TxRecord) : WALAppend :=
  { recordType := .txMarker
    payload :=
      [("action", .str "PREPARE"), ("tx_id", .str txId), ("status", .str "PREPARED"),
        ("write_keys", .list (tx.writeSet.keys.map .str)),
        ("fencing_tokens", .dict (tx.fencingTokens.items.map fun item => (item.1, .int item.2)))] }

def commit (txId : String) (tx : TxRecord) : WALAppend :=
  { recordType := .txMarker
    payload :=
      [("action", .str "COMMIT"), ("tx_id", .str txId), ("status", .str "COMMITTED"),
        ("ops_count", .int tx.operations.length),
        ("operations", .list (tx.operations.map TxOperation.toDict)),
        ("write_set", .dict tx.writeSet.items)] }

def abort (txId : String) (reason : Option String) : WALAppend :=
  { recordType := .txMarker
    payload :=
      [("action", .str "ABORT"), ("tx_id", .str txId), ("status", .str "ABORTED"),
        ("reason", (reason.map .str).getD .none)] }

end WALAppend

namespace CallSystem

variable (objects : PyObjects) (s : CallSystem)

/-- The marker of a successful prepare. -/
def prepareMarker (now : Rat) (txId : String) (context : Option TransactionContext) : List WALAppend :=
  let (s', result) := s.prepare now txId context
  match s'.record? txId with
  | some tx => if result.voteYes then [.prepare txId tx] else []
  | none => []

def rollbackMarker (txId : String) (reason : Option String) : List WALAppend :=
  match s.record? txId with
  | some _ => [.abort txId reason]
  | none => []

/-- What an event appends to the log. -/
def markers (ev : CallEvent) : List WALAppend :=
  match ev with
  | .begin uuid isolationLevel _ _ =>
    match s.record? ("tx_" ++ uuid) with
    | some _ => []
    | none => [.begin ("tx_" ++ uuid) isolationLevel]
  | .prepare now txId context => s.prepareMarker now txId context
  | .commit .. => []
  | .proceed k now =>
    match s.calls[k]? with
    | none => []
    | some call =>
      match call.phase with
      | .prepare => s.prepareMarker now call.txId call.argument
      | .apply =>
        match s.record? call.txId with
        | some tx =>
          match (s.coordinator.finishCommit objects now call.txId tx).2 with
          | .ok () => [.commit call.txId tx]
          | .error _ => []
        | none => []
      | .abort reason => s.rollbackMarker call.txId reason
      | .lookup | .returned _ => []
  | .rollback _ txId reason => s.rollbackMarker txId reason

end CallSystem

/-! ### Two interpreters of one list of operations -/

theorem TxOperation.toDict_getD (op : TxOperation) :
    op.toDict.getD "op_type" .none = .ok (.str op.opType.value) ∧
      op.toDict.getD "key" .none = .ok (.str op.key) ∧
      op.toDict.getD "value" .none = .ok op.value ∧ op.toDict.getD "delta" (.int 1) = .ok (.int op.delta) :=
  ⟨rfl, rfl, rfl, rfl⟩

theorem replayOperation_toDict (op : TxOperation) (sm : ReplicatedStateMachine) :
    replayOperation op.toDict sm = op.apply .values sm := by
  obtain ⟨htype, hkey, hvalue, hdelta⟩ := op.toDict_getD
  unfold replayOperation TxOperation.apply
  rw [htype, hkey, hvalue, hdelta]
  cases hop : op.opType with
  | set | delete => simp [TxOperationType.value, Value.asStr?, pure, Except.pure, bind, Except.bind]
  | increment =>
    have hcaught := PyObjects.countable_values ((sm.get op.key).getD (.int 0))
    rw [PyObjects.incremented, show PyObjects.values.toInt = Value.toInt from rfl]
    cases hcurr : ((sm.get op.key).getD (.int 0)).toInt with
    | ok z =>
      simp [TxOperationType.value, Value.asStr?, pure, Except.pure, bind, Except.bind, Value.addTo, hcurr, Except.map]
    | error e =>
      simp [TxOperationType.value, Value.asStr?, pure, Except.pure, bind, Except.bind, hcurr, Except.map,
        hcaught e hcurr]

theorem replayOperations_toDict (operations : List TxOperation) (sm : ReplicatedStateMachine) (versions : Versions) :
    replayOperations (operations.map TxOperation.toDict) sm =
      ((applyOperations .values operations (sm, versions)).1.1,
        (applyOperations .values operations (sm, versions)).2) := by
  induction operations generalizing sm versions with
  | nil => rfl
  | cons op operations ih =>
    rw [List.map_cons, replayOperations, replayOperation_toDict, applyOperations]
    cases op.apply .values sm with
    | error e => rfl
    | ok sm' => exact ih sm' (versions.bump op.key)

/-- **What appends amount to**: records with these types and payloads take one store to the other. -/
def Replays (clock times : Clock) (appends : List WALAppend) (sm sm' : ReplicatedStateMachine) : Prop :=
  ∀ (records : List WALRecord) (s : Recovered), records.map WALRecord.appended = appends →
    s.stateMachine = some sm →
    (run (fun s record => s.replay clock times record) s records).stateMachine = some sm'

namespace Replays

variable {clock times : Clock} {appends more : List WALAppend} {sm sm' sm'' : ReplicatedStateMachine}
  {payload : List (String × Value)}

theorem nil (sm : ReplicatedStateMachine) : Replays clock times [] sm sm := by
  intro records s hrecords hs
  rwa [List.map_eq_nil_iff.mp hrecords]

theorem append (h : Replays clock times appends sm sm') (h' : Replays clock times more sm' sm'') :
    Replays clock times (appends ++ more) sm sm'' := by
  intro records s hrecords hs
  obtain ⟨first, rest, rfl, hfirst, hrest⟩ := List.map_eq_append_iff.mp hrecords
  rw [run_append]
  exact h' rest _ hrest (h first s hfirst hs)

theorem marker
    (h : ∀ (record : WALRecord) (s : Recovered), record.payload = payload → s.stateMachine = some sm →
      (s.replayTxMarker record).1.stateMachine = some sm') :
    Replays clock times [⟨.txMarker, payload⟩] sm sm' := by
  intro records s hrecords hs
  obtain ⟨record, rest, rfl, hrecord, hrest⟩ := List.map_eq_cons_iff.mp hrecords
  obtain rfl := List.map_eq_nil_iff.mp hrest
  have htype : record.recordType = .txMarker := congrArg WALAppend.recordType hrecord
  have hmarker := h record { s with lastSeqNo := max s.lastSeqNo record.seqNo }
    (congrArg WALAppend.payload hrecord) hs
  change (s.replay clock times record).stateMachine = some sm'
  unfold replay
  rw [htype]
  dsimp only
  generalize replayTxMarker _ record = out at hmarker
  obtain ⟨s', outcome⟩ := out
  cases outcome with
  | ok | error e => exact hmarker

theorem of_not_commit (haction : Dict.lookup "action" payload ≠ some (.str "COMMIT"))
    (hstatus : Dict.lookup "status" payload ≠ some (.str "COMMITTED")) :
    Replays clock times [⟨.txMarker, payload⟩] sm sm := by
  refine marker fun record s hpayload hs => ?_
  unfold replayTxMarker WALRecord.get?
  rwa [hpayload, if_neg (not_or.mpr ⟨haction, hstatus⟩)]

theorem commit (txId : String) (tx : TxRecord) (versions : Versions) :
    Replays clock times [.commit txId tx] sm (applyOperations .values tx.operations (sm, versions)).1.1 := by
  refine marker fun record s hpayload hs => ?_
  have haction : record.get? "action" = some (.str "COMMIT") := by
    rw [WALRecord.get?, hpayload]
    rfl
  have hops : record.get? "operations" = some (.list (tx.operations.map TxOperation.toDict)) := by
    rw [WALRecord.get?, hpayload]
    rfl
  unfold replayTxMarker
  rw [if_pos (Or.inl haction), hs, hops]
  dsimp only [Option.getD_some, Value.iter]
  rw [replayOperations_toDict tx.operations sm versions]

end Replays

theorem TransactionCoordinator.prepareTransaction_stateMachine (c : TransactionCoordinator) (now : Rat)
    (txId : String) (context : Option TransactionContext) :
    (c.prepareTransaction now txId context).1.stateMachine = c.stateMachine := by
  cases hrecord : c.activeTxs.get? txId with
  | none => rw [prepareTransaction, hrecord]
  | some record =>
    have hmove := prepareMove hrecord now context
    generalize c.prepareTransaction now txId context = out at hmove
    cases hmove <;> rfl

theorem TransactionCoordinator.rollbackTransaction_stateMachine (c : TransactionCoordinator) (now : Rat)
    (txId : String) (reason : Option String) :
    (c.rollbackTransaction now txId reason).1.stateMachine = c.stateMachine := by
  unfold rollbackTransaction
  cases c.activeTxs.get? txId <;> rfl

namespace CallSystem

variable {s : CallSystem} {clock times : Clock} {sm : ReplicatedStateMachine}

theorem replays_prepareMarker (now : Rat) (txId : String) (context : Option TransactionContext) :
    Replays clock times (s.prepareMarker now txId context) sm sm := by
  unfold prepareMarker
  dsimp only
  cases (s.prepare now txId context).1.record? txId with
  | none => exact .nil sm
  | some tx =>
    split_ifs
    · exact .of_not_commit (by simp [Dict.lookup]) (by simp [Dict.lookup])
    · exact .nil sm

theorem replays_rollbackMarker (txId : String) (reason : Option String) :
    Replays clock times (s.rollbackMarker txId reason) sm sm := by
  unfold rollbackMarker
  cases s.record? txId with
  | none => exact .nil sm
  | some tx => exact .of_not_commit (by simp [Dict.lookup]) (by simp [Dict.lookup])

theorem replays_step (hsm : s.coordinator.stateMachine = some sm) (ev : CallEvent) :
    ∃ sm', (s.step .values ev).coordinator.stateMachine = some sm' ∧
      Replays clock times (s.markers .values ev) sm sm' := by
  cases ev with
  | begin uuid isolationLevel timeoutSeconds now =>
    rw [step, markers]
    cases s.record? ("tx_" ++ uuid) with
    | some tx => exact ⟨sm, hsm, .nil sm⟩
    | none => exact ⟨sm, hsm, .of_not_commit (by simp [Dict.lookup]) (by simp [Dict.lookup])⟩
  | prepare now txId context =>
    exact ⟨sm, (prepareTransaction_stateMachine ..).trans hsm, replays_prepareMarker now txId context⟩
  | commit txId context passed => exact ⟨sm, hsm, .nil sm⟩
  | rollback now txId reason =>
    exact ⟨sm, (rollbackTransaction_stateMachine ..).trans hsm, replays_rollbackMarker txId reason⟩
  | proceed k now =>
    rw [step, markers]
    cases hcall : s.calls[k]? with
    | none => exact ⟨sm, hsm, .nil sm⟩
    | some call =>
      dsimp only
      unfold CallSystem.proceed
      cases call.phase with
      | lookup =>
        refine ⟨sm, ?_, .nil sm⟩
        cases s.record? call.txId <;> exact hsm
      | prepare =>
        exact ⟨sm, (prepareTransaction_stateMachine ..).trans hsm, replays_prepareMarker now _ _⟩
      | apply =>
        cases s.record? call.txId with
        | none => exact ⟨sm, hsm, .nil sm⟩
        | some tx =>
          have hstore := finishCommit_stateMachine .values now call.txId tx (c := s.coordinator)
          rw [hsm] at hstore
          refine ⟨_, hstore, ?_⟩
          dsimp only
          rw [finishCommit_values]
          exact .commit call.txId tx s.coordinator.keyVersions
      | abort reason =>
        exact ⟨sm, (rollbackTransaction_stateMachine ..).trans hsm, replays_rollbackMarker _ reason⟩
      | returned answer => exact ⟨sm, hsm, .nil sm⟩

end CallSystem

/-- The coordinator with its calls, and what has been appended to its log. -/
structure LoggedSystem where
  system : CallSystem
  appends : List WALAppend

namespace LoggedSystem

def step (s : LoggedSystem) (ev : CallEvent) : LoggedSystem :=
  ⟨s.system.step .values ev, s.appends ++ s.system.markers .values ev⟩

def after (nodeId : String) (events : List CallEvent) : LoggedSystem :=
  run step ⟨.init nodeId (some .empty), []⟩ events

theorem replays_after (clock times : Clock) (nodeId : String) (events : List CallEvent) :
    ∃ sm, (after nodeId events).system.coordinator.stateMachine = some sm ∧
      Replays clock times (after nodeId events).appends .empty sm := by
  refine run_invariant (I := fun s : LoggedSystem => ∃ sm,
    s.system.coordinator.stateMachine = some sm ∧ Replays clock times s.appends .empty sm)
    (fun s ev => ?_) ⟨.empty, rfl, .nil .empty⟩ events
  rintro ⟨sm, hsm, hreplays⟩
  obtain ⟨sm', hsm', hstep⟩ := CallSystem.replays_step hsm ev
  exact ⟨sm', hsm', hreplays.append hstep⟩

/-- **Recovery rebuilds the live store**, after any run of transactions, from whatever records hold what
was appended. -/
theorem recover_eq_live (clock times : Clock) (nodeId : String) (events : List CallEvent)
    (records : List WALRecord) (raftLog : Option RaftLog)
    (hrecords : records.map WALRecord.appended = (after nodeId events).appends) :
    (recover clock times records (some .empty) raftLog).stateMachine =
      (after nodeId events).system.coordinator.stateMachine := by
  obtain ⟨sm, hsm, hreplays⟩ := replays_after clock times nodeId events
  rw [hsm]
  exact hreplays records _ hrecords rfl

/-- A transaction increments a text, a missing key and a key it has deleted; another one is rolled back. -/
theorem recover_eq_live_mixed :
    let calls : List TxCall :=
      [.set "x" (.str "five") none, .increment "x" 2 none, .increment "y" 3 none, .delete "y" none,
        .increment "y" 4 none, .set "z" .none none, .increment "z" 1 none]
    let ctx := ((TransactionContext.new "tx_1" .serializable 10).calls .values (fun _ => .none) calls).1
    let events : List CallEvent :=
      [.begin "1" .serializable 10 0, .begin "2" .serializable 10 0, .commit "tx_1" ctx true,
        .proceed 0 1, .prepare 1 "tx_2" (some (CallSystem.settingKeys "tx_2" ["u"])), .proceed 0 1,
        .proceed 0 1, .rollback 1 "tx_2" none]
    let records := WALAppend.records (after "a" events).appends
    let recovered := (recover (fun _ => 0) (fun _ => 0) records (some .empty) none).stateMachine
    recovered = (after "a" events).system.coordinator.stateMachine ∧ records.length = 6 ∧
      recovered.map (fun sm => (sm.get "x", sm.get "y", sm.get "z")) =
        some (some (.int 2), some (.int 4), some (.int 1)) := by
  intro calls ctx events records recovered
  exact ⟨recover_eq_live _ _ "a" events records none (WALAppend.appended_records _), by decide +kernel,
    by decide +kernel⟩

end LoggedSystem

end MeshWeaver
