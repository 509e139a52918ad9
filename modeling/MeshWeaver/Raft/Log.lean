import MeshWeaver.Model.Value

/-!
# The Raft log

The stored entries, the commit and applied indexes, and the marker (`snapshotLastIndex`, `snapshotLastTerm`) up to which
the log has been compacted. Indexes are 1-based and count from the beginning of the history. A method that raises before
it changes anything returns an `Except`; `reconcileFollowerEntries` may raise in the middle of its loop and returns the
log as it then stands together with the outcome.
-/

namespace MeshWeaver

structure Command where
  commandType : RaftCommandType
  key : Option String
  value : Value
  clientId : Option String
  fencingToken : Option Int
  extraData : List (String × Value)

/-- `range(a, b)` -/
def intRange (a b : Int) : List Int := (List.range (b - a).toNat).map fun (k : Nat) => a + k

structure RaftLog where
  entries : List LogEntry
  commitIndex : Int
  lastApplied : Int
  snapshotLastIndex : Int
  snapshotLastTerm : Int

namespace RaftLog

def empty : RaftLog := ⟨[], 0, 0, 0, 0⟩

variable (log : RaftLog)

def lastIndex : Int :=
  match log.entries.getLast? with
  | none => log.snapshotLastIndex
  | some e => e.index

def lastTerm : Int :=
  match log.entries.getLast? with
  | none => log.snapshotLastTerm
  | some e => e.term

def appendEntry (entry : LogEntry) : Except PyError (RaftLog × Int) :=
  let expectedIndex := log.lastIndex + 1
  if entry.index ≤ 0 then
    .ok ({ log with entries := log.entries ++ [{ entry with index := expectedIndex }] },
      expectedIndex)
  else if entry.index ≠ expectedIndex then
    .error (.valueError ("Log entry index gap: expected " ++ toString expectedIndex ++
      ", got " ++ toString entry.index))
  else
    .ok ({ log with entries := log.entries ++ [entry] }, entry.index)

/-- `append_command`; `now` is what `time.time()` returns. -/
def appendCommand (term : Int) (command : Command) (now : Rat) :
    Except PyError (RaftLog × LogEntry) :=
  let entry : LogEntry :=
    { index := log.lastIndex + 1, term, commandType := command.commandType, key := command.key,
      value := command.value, clientId := command.clientId, timestamp := now,
      fencingToken := command.fencingToken, extraData := .dict command.extraData }
  match log.appendEntry entry with
  | .error e => .error e
  | .ok (log', index) => .ok (log', { entry with index })

def getEntry (index : Int) : Option LogEntry :=
  if index ≤ log.snapshotLastIndex then none
  else
    let offset := index - log.snapshotLastIndex - 1
    if 0 ≤ offset ∧ offset < log.entries.length then log.entries[offset.toNat]? else none

def getTerm (index : Int) : Int :=
  if index = 0 then 0
  else if index = log.snapshotLastIndex then log.snapshotLastTerm
  else
    match log.getEntry index with
    | some entry => entry.term
    | none => 0

def sliceFrom (startIndex : Int) : List LogEntry :=
  if startIndex > log.lastIndex then []
  else log.entries.drop (max 0 (startIndex - log.snapshotLastIndex - 1)).toNat

def checkConsistency (prevLogIndex prevLogTerm : Int) : Bool :=
  if prevLogIndex = 0 then true
  else if prevLogIndex = log.snapshotLastIndex then log.snapshotLastTerm = prevLogTerm
  else
    match log.getEntry prevLogIndex with
    | none => false
    | some entry => entry.term = prevLogTerm

def truncateFrom (fromIndex : Int) : Except PyError (RaftLog × Int) :=
  if fromIndex ≤ log.snapshotLastIndex then
    .error (.valueError ("Cannot truncate compacted snapshot log below " ++
      toString log.snapshotLastIndex))
  else if fromIndex > log.lastIndex then .ok (log, 0)
  else
    let offset := fromIndex - log.snapshotLastIndex - 1
    let removedCount := log.entries.length - offset
    let log' := { log with entries := log.entries.take offset.toNat }
    .ok (if log'.commitIndex > log'.lastIndex then { log' with commitIndex := log'.lastIndex }
      else log', removedCount)

/-- The loop of `reconcile_follower_entries` over the entries of the request. -/
def reconcileLoop : List LogEntry → RaftLog → RaftLog × Except PyError Unit
  | [], log => (log, .ok ())
  | entry :: rest, log =>
    match log.getEntry entry.index with
    | some existing =>
      if existing.term ≠ entry.term then
        -- a conflict: drop the stored entries from here on
        match log.truncateFrom entry.index with
        | .error e => (log, .error e)
        | .ok (log₁, _) =>
          match log₁.appendEntry entry with
          | .error e => (log₁, .error e)
          | .ok (log₂, _) => reconcileLoop rest log₂
      else reconcileLoop rest log
    | none =>
      match log.appendEntry entry with
      | .error e => (log, .error e)
      | .ok (log₁, _) => reconcileLoop rest log₁

def reconcileFollowerEntries (prevLogIndex prevLogTerm : Int)
    (newEntries : List LogEntry) : RaftLog × Except PyError (Bool × Int) :=
  if log.checkConsistency prevLogIndex prevLogTerm then
    match reconcileLoop newEntries log with
    | (log', .error e) => (log', .error e)
    | (log', .ok ()) => (log', .ok (true, log'.lastIndex))
  else (log, .ok (false, log.lastIndex))

def advanceCommitIndex (newCommitIndex : Int) : RaftLog :=
  let validCommit := min newCommitIndex log.lastIndex
  if validCommit > log.commitIndex then { log with commitIndex := validCommit } else log

def getUnappliedEntries : List LogEntry :=
  if log.commitIndex ≤ log.lastApplied then []
  else (intRange (log.lastApplied + 1) (log.commitIndex + 1)).filterMap log.getEntry

def markApplied (index : Int) : RaftLog :=
  if index > log.lastApplied then { log with lastApplied := min index log.commitIndex } else log

def compactLogBefore (index : Int) : RaftLog × Int :=
  if index ≤ log.snapshotLastIndex then (log, 0)
  else
    let target := min index log.lastApplied
    match log.getEntry target with
    | none => (log, 0)
    | some entry =>
      let log' := { log with
        snapshotLastIndex := entry.index
        snapshotLastTerm := entry.term
        entries := log.entries.filter fun e => e.index > target }
      (log', log'.entries.length)

def restoreSnapshot (lastIncludedIndex lastIncludedTerm : Int) : RaftLog :=
  { snapshotLastIndex := lastIncludedIndex
    snapshotLastTerm := lastIncludedTerm
    commitIndex := max log.commitIndex lastIncludedIndex
    lastApplied := max log.lastApplied lastIncludedIndex
    entries := log.entries.filter fun e => e.index > lastIncludedIndex }

end RaftLog

end MeshWeaver
