import MeshWeaver.Raft.Log
import MeshWeaver.Raft.StateMachine
import MeshWeaver.Lib.Run

/-!
# Crash recovery

`CrashRecoveryManager.recover`: the records of the write-ahead log are replayed one by one into a state
machine and a Raft log, each of which may be absent. A record whose replay raises is counted and left
behind, with whatever it has changed before.
-/

namespace MeshWeaver

open Lib

inductive WALRecordType where
  | entry | snapshotPointer | commitMarker | txMarker | checkpoint
deriving DecidableEq, Repr

/-- `WALRecord`. The payload is a dictionary. -/
structure WALRecord where
  seqNo : Int
  recordType : WALRecordType
  payload : List (String × Value)
  timestamp : Rat
  crc32 : Nat
deriving DecidableEq

namespace WALRecord

variable (record : WALRecord)

def get? (k : String) : Option Value := Dict.lookup k record.payload

/-- `payload.get("entry") or payload` -/
def entryDict : Value :=
  match record.get? "entry" with
  | some v => if v.truthy then v else .dict record.payload
  | none => .dict record.payload

/-- The log entry that the record carries; `now` is what `time.time()` returns. -/
def entry (now : Rat) : Except PyError LogEntry :=
  match record.entryDict with
  | .dict data => LogEntry.fromDict now data
  | _ => .error (.attributeError "object has no attribute 'get'")

/-- `payload.get("committed", True)`, as a condition -/
def committed : Bool := ((record.get? "committed").getD (.bool true)).truthy

end WALRecord

/-- What is recovered, and the counters that `recover` returns. -/
structure Recovered where
  stateMachine : Option ReplicatedStateMachine
  raftLog : Option RaftLog
  recordsReplayed : Nat
  errorsCount : Nat
  lastSeqNo : Int

namespace Recovered

/-- What the loop starts from. -/
def start (stateMachine : Option ReplicatedStateMachine) (raftLog : Option RaftLog) : Recovered :=
  { stateMachine, raftLog, recordsReplayed := 0, errorsCount := 0, lastSeqNo := 0 }

variable (s : Recovered)

/-- `if entry.index > raft_log.last_index: raft_log.append_entry(entry)` -/
def logEntry (log : RaftLog) (entry : LogEntry) : Except PyError RaftLog :=
  if entry.index > log.lastIndex then (log.appendEntry entry).map Prod.fst else .ok log

/-- The log with the entry, if there is a log. -/
def logged (entry : LogEntry) : Except PyError (Option RaftLog) :=
  match s.raftLog with
  | none => .ok none
  | some log => (logEntry log entry).map some

/-- The part of the `ENTRY` branch that is run for committed entries. -/
def commitEntry (clock : Clock) (entry : LogEntry) : Recovered × Except PyError Unit :=
  let applied (log : RaftLog) : RaftLog :=
    (log.advanceCommitIndex entry.index).markApplied entry.index
  let s₁ := { s with raftLog := s.raftLog.map applied }
  match s₁.stateMachine with
  | none => (s₁, .ok ())
  | some sm =>
    let (sm, outcome) := sm.applyCommand clock entry
    ({ s₁ with stateMachine := some sm }, outcome.map fun _ => ())

/-- The `ENTRY` branch. -/
def replayEntry (clock : Clock) (now : Rat) (record : WALRecord) : Recovered × Except PyError Unit :=
  match record.entry now with
  | .error e => (s, .error e)
  | .ok entry =>
    match s.logged entry with
    | .error e => (s, .error e)
    | .ok raftLog =>
      let s₁ := { s with raftLog }
      if record.committed then s₁.commitEntry clock entry else (s₁, .ok ())

/-- The `COMMIT_MARKER` branch. -/
def replayCommitMarker (record : WALRecord) : Recovered × Except PyError Unit :=
  match ((record.get? "commit_index").getD (.int 0)).toInt with
  | .error e => (s, .error e)
  | .ok i => ({ s with raftLog := s.raftLog.map (RaftLog.advanceCommitIndex · i) }, .ok ())

/-- The body of the loop over the operations of a committed transaction. -/
def replayOperation (op : Value) (sm : ReplicatedStateMachine) :
    Except PyError ReplicatedStateMachine := do
  let opType ← op.getD "op_type" .none
  let key ← (← op.getD "key" .none).asStr?
  let val ← op.getD "value" .none
  let delta ← op.getD "delta" (.int 1)
  match key with
  | none => pure sm
  | some key =>
    if opType = .str "SET" then pure { sm with state := sm.state.insert key val }
    else if opType = .str "INCREMENT" then
      let curr := (sm.get key).getD (.int 0)
      let next :=
        match curr.toInt.bind fun z => delta.addTo z with
        | .ok v => v
        | .error _ => delta
      pure { sm with state := sm.state.insert key next }
    else if opType = .str "DELETE" then pure { sm with state := sm.state.erase key }
    else pure sm

def replayOperations : List Value → ReplicatedStateMachine →
    ReplicatedStateMachine × Except PyError Unit
  | [], sm => (sm, .ok ())
  | op :: ops, sm =>
    match replayOperation op sm with
    | .error e => (sm, .error e)
    | .ok sm => replayOperations ops sm

/-- The `TX_MARKER` branch. -/
def replayTxMarker (record : WALRecord) : Recovered × Except PyError Unit :=
  if record.get? "action" = some (.str "COMMIT") ∨ record.get? "status" = some (.str "COMMITTED") then
    match s.stateMachine with
    | none => (s, .ok ())
    | some sm =>
      match ((record.get? "operations").getD (.list [])).iter with
      | .error e => (s, .error e)
      | .ok ops =>
        let (sm, outcome) := replayOperations ops sm
        ({ s with stateMachine := some sm }, outcome)
  else (s, .ok ())

/-- The `try` statement around the branches. -/
def tally (out : Recovered × Except PyError Unit) : Recovered :=
  match out with
  | (s, .ok ()) => { s with recordsReplayed := s.recordsReplayed + 1 }
  | (s, .error _) => { s with errorsCount := s.errorsCount + 1 }

/-- The body of the loop over the records. `clock` gives the time readings of the state machine, `times`
those made while the record with a given sequence number is decoded. -/
def replay (clock times : Clock) (record : WALRecord) : Recovered :=
  let s := { s with lastSeqNo := max s.lastSeqNo record.seqNo }
  match record.recordType with
  | .entry => tally (s.replayEntry clock (times record.seqNo) record)
  | .commitMarker => tally (s.replayCommitMarker record)
  | .txMarker => tally (s.replayTxMarker record)
  | .checkpoint => { s with recordsReplayed := s.recordsReplayed + 1 }
  | .snapshotPointer => s

/-- `recover`, over the records that the log yields. -/
def recover (clock times : Clock) (records : List WALRecord)
    (stateMachine : Option ReplicatedStateMachine) (raftLog : Option RaftLog) : Recovered :=
  run (fun s record => s.replay clock times record) (start stateMachine raftLog) records

end Recovered

end MeshWeaver
