import Mathlib.Data.Finset.Sort
import Mathlib.Data.String.Basic
import MeshWeaver.Model.Value

/-!
# The replicated state machine

A key/value store, leases with fencing tokens, the job queue and the member set, all changed by `applyCommand` only.
`apply_command` may raise half-way (a batch keeps the effect of the sub-commands before the one that raises), so it
returns the machine afterwards together with the outcome. `clock k` is what `time.time()` returns during the `k`-th call
of `apply_command` on this machine, sub-commands included.
-/

namespace MeshWeaver

open Lib

/-- What `time.time()` returns during each call of `apply_command`. -/
abbrev Clock := Int → Rat

structure DistributedLock where
  resource : String
  holderId : String
  fencingToken : Int
  acquiredAt : Rat
  ttlSeconds : Rat
deriving DecidableEq

def DistributedLock.isExpired (lock : DistributedLock) (now : Rat) : Bool :=
  now > lock.acquiredAt + lock.ttlSeconds

structure LockAcquireResult where
  acquired : Bool
  resource : String
  fencingToken : Option Int
  holderId : Option String
  error : Option String
deriving DecidableEq

inductive ConsensusJobStatus where
  | submitted | assigned | running | completed | failed | cancelled
deriving DecidableEq, Repr

/-- `ConsensusJob`. Fields that are copied from a command without conversion are `Value`s. -/
structure ConsensusJob where
  jobId : String
  funcBytes : Value
  argsBytes : Value
  kwargsBytes : Value
  priority : Int
  status : ConsensusJobStatus
  submittedBy : String
  assignedTo : Value
  assignedAt : Option Rat
  timeoutSeconds : Rat
  retryCount : Int
  maxRetries : Int
  fencingToken : Option Int
  resultBytes : Value
  errorMessage : Value
  createdAt : Rat
  completedAt : Option Rat

/-- What `apply_command` returns; `job` stands for the dictionary `job.to_dict()`. -/
inductive CommandResult where
  | value (v : Value)
  | lock (r : LockAcquireResult)
  | job (j : ConsensusJob)
  | results (rs : List CommandResult)

structure ReplicatedStateMachine where
  state : Dict String Value
  locks : Dict String DistributedLock
  jobs : Dict String ConsensusJob
  clusterMembers : Finset String
  fencingTokenCounter : Int
  commandsApplied : Int

/-- `a or b` for a string that may be missing -/
def orStr (a : Option String) (b : String) : String :=
  match a with
  | some s => if s = "" then b else s
  | none => b

/-- `entry.timestamp or time.time()` -/
def orNow (timestamp now : Rat) : Rat := if timestamp = 0 then now else timestamp

namespace LogEntry

/-- `entry.key or entry.extra_data.get("job_id", "")` -/
def jobKey (entry : LogEntry) : Except PyError String :=
  match entry.key with
  | some s => if s = "" then do (← entry.extraData.getD "job_id" (.str "")).asStr else .ok s
  | none => do (← entry.extraData.getD "job_id" (.str "")).asStr

/-- `entry.fencing_token or entry.extra_data.get("fencing_token")` -/
def fencingArg (entry : LogEntry) : Except PyError Value :=
  match entry.fencingToken with
  | some z => if z = 0 then entry.extraData.getD "fencing_token" .none else .ok (.int z)
  | none => entry.extraData.getD "fencing_token" .none

end LogEntry

/-- The fields `export_state` writes and `import_state` reads. -/
structure SnapshotData where
  state : Dict String Value
  locks : Dict String DistributedLock
  jobs : Dict String ConsensusJob
  clusterMembers : Finset String
  fencingTokenCounter : Int
  commandsApplied : Int

namespace ReplicatedStateMachine

/-- A machine afterwards, and what the call returned or raised. -/
abbrev Outcome := ReplicatedStateMachine × Except PyError CommandResult

def empty : ReplicatedStateMachine := ⟨.empty, .empty, .empty, ∅, 0, 0⟩

variable (now : Rat) (entry : LogEntry) (sm : ReplicatedStateMachine)

def get (key : String) : Option Value := sm.state.get? key

def truth (b : Bool) : Except PyError CommandResult := .ok (.value (.bool b))

/-- Run `f` on what `x` returns; if `x` raises, the machine stays as it is. -/
def withArg {α : Type} (sm : ReplicatedStateMachine) (x : Except PyError α) (f : α → Outcome) :
    Outcome :=
  match x with
  | .error e => (sm, .error e)
  | .ok a => f a

def applyCas : Outcome :=
  match entry.key with
  | none => (sm, truth false)
  | some key =>
    sm.withArg (entry.extraData.getD "expected" .none) fun expected =>
      let current := (sm.state.get? key).getD .none
      if current.pyEq expected then ({ sm with state := sm.state.insert key entry.value }, truth true)
      else (sm, truth false)

def applyIncrement : Outcome :=
  match entry.key with
  | none => (sm, .ok (.value (.int 0)))
  | some key =>
    sm.withArg (do (← entry.extraData.getD "delta" (.int 1)).toInt) fun delta =>
      sm.withArg ((sm.state.get? key).getD (.int 0)).toInt fun current =>
        let newVal := current + delta
        ({ sm with state := sm.state.insert key (.int newVal) }, .ok (.value (.int newVal)))

def applyLockAcquire : Outcome :=
  let resource := orStr entry.key "default_resource"
  let holderId := orStr entry.clientId "anonymous"
  sm.withArg (do (← entry.extraData.getD "ttl_seconds" (.float 30)).toFloat) fun ttlSeconds =>
    let grant : Outcome :=
      let token := sm.fencingTokenCounter + 1
      let newLock : DistributedLock := ⟨resource, holderId, token, now, ttlSeconds⟩
      ({ sm with fencingTokenCounter := token, locks := sm.locks.insert resource newLock },
        .ok (.lock ⟨true, resource, some token, some holderId, none⟩))
    match sm.locks.get? resource with
    | none => grant
    | some existing =>
      if existing.isExpired now then grant
      else if existing.holderId = holderId then
        -- the holder renews its lease and keeps its token
        let renewed := { existing with acquiredAt := now, ttlSeconds := ttlSeconds }
        ({ sm with locks := sm.locks.insert resource renewed },
          .ok (.lock ⟨true, resource, some existing.fencingToken, some holderId, none⟩))
      else
        (sm, .ok (.lock ⟨false, resource, none, some existing.holderId,
          some ("Resource '" ++ resource ++ "' currently locked by " ++ existing.holderId)⟩))

def applyLockRelease : Outcome :=
  let resource := orStr entry.key "default_resource"
  sm.withArg entry.fencingArg fun fencingToken =>
    match sm.locks.get? resource with
    | none => (sm, truth true)
    | some existing =>
      let tokenDiffers : Bool :=
        match fencingToken with
        | .none => false
        | token => !(Value.int existing.fencingToken).pyEq token
      let holderDiffers : Bool :=
        match entry.clientId with
        | none => false
        | some holderId => existing.holderId ≠ holderId
      if tokenDiffers then (sm, truth false)
      else if holderDiffers then (sm, truth false)
      else ({ sm with locks := sm.locks.erase resource }, truth true)

def applyJobSubmit : Outcome :=
  let job : Except PyError ConsensusJob := do
    let jobId ← entry.jobKey
    let funcBytes ← entry.extraData.getD "func_bytes" .none
    let argsBytes ← entry.extraData.getD "args_bytes" .none
    let kwargsBytes ← entry.extraData.getD "kwargs_bytes" .none
    let priority ← (← entry.extraData.getD "priority" (.int 2)).toInt
    let timeoutSeconds ← (← entry.extraData.getD "timeout_seconds" (.float 60)).toFloat
    let maxRetries ← (← entry.extraData.getD "max_retries" (.int 3)).toInt
    pure { jobId, funcBytes, argsBytes, kwargsBytes, priority, status := .submitted,
           submittedBy := orStr entry.clientId "", assignedTo := .none, assignedAt := none,
           timeoutSeconds, retryCount := 0, maxRetries, fencingToken := none,
           resultBytes := .none, errorMessage := .none, createdAt := now, completedAt := none }
  sm.withArg job fun job => ({ sm with jobs := sm.jobs.insert job.jobId job }, .ok (.job job))

def applyJobAssign : Outcome :=
  sm.withArg entry.jobKey fun jobId =>
    sm.withArg (entry.extraData.getD "worker_id" (.str "")) fun workerId =>
      match sm.jobs.get? jobId with
      | none => (sm, .ok (.value .none))
      | some job =>
        let token := sm.fencingTokenCounter + 1
        let job' := { job with
          status := .assigned, assignedTo := workerId, assignedAt := some now,
          fencingToken := some token }
        ({ sm with fencingTokenCounter := token, jobs := sm.jobs.insert jobId job' },
          .ok (.job job'))

def applyJobComplete : Outcome :=
  sm.withArg entry.jobKey fun jobId =>
    sm.withArg entry.fencingArg fun fencingToken =>
      sm.withArg (entry.extraData.getD "result_bytes" .none) fun resultBytes =>
        match sm.jobs.get? jobId with
        | none => (sm, truth false)
        | some job =>
          let tokenDiffers : Bool :=
            match fencingToken with
            | .none => false
            | token => !(Value.ofOptInt job.fencingToken).pyEq token
          if tokenDiffers then (sm, truth false)
          else
            let job' := { job with
              status := .completed, resultBytes := resultBytes, completedAt := some now }
            ({ sm with jobs := sm.jobs.insert jobId job' }, truth true)

def applyJobFail : Outcome :=
  sm.withArg entry.jobKey fun jobId =>
    sm.withArg (entry.extraData.getD "error_message" .none) fun errorMsg =>
      match sm.jobs.get? jobId with
      | none => (sm, .ok (.value .none))
      | some job =>
        let failed := { job with retryCount := job.retryCount + 1, errorMessage := errorMsg }
        let job' : ConsensusJob :=
          if failed.retryCount ≥ failed.maxRetries then
            { failed with status := .failed, completedAt := some now }
          else { failed with status := .submitted, assignedTo := .none, assignedAt := none }
        ({ sm with jobs := sm.jobs.insert jobId job' }, .ok (.job job'))

def applyJobCancel : Outcome :=
  sm.withArg entry.jobKey fun jobId =>
    match sm.jobs.get? jobId with
    | none => (sm, truth false)
    | some job =>
      if job.status = .completed ∨ job.status = .cancelled then (sm, truth false)
      else
        let job' := { job with status := .cancelled, completedAt := some now }
        ({ sm with jobs := sm.jobs.insert jobId job' }, truth true)

def applyMembershipChange : Outcome :=
  sm.withArg (entry.extraData.getD "action" (.str "ADD")) fun action =>
    let members :=
      match entry.key with
      | none => sm.clusterMembers
      | some peer =>
        if peer = "" then sm.clusterMembers
        else if action.pyEq (.str "ADD") then insert peer sm.clusterMembers
        else if action.pyEq (.str "REMOVE") then sm.clusterMembers.erase peer
        else sm.clusterMembers
    ({ sm with clusterMembers := members },
      .ok (.value (.list ((members.sort (· ≤ ·)).map Value.str))))

/-- The loop of `_apply_batch`; `apply` is `self.apply_command`. An operation that is neither a
dictionary nor an entry has no `command_type`. -/
def applyOps (apply : LogEntry → ReplicatedStateMachine → Outcome) (clock : Clock) :
    List Value → List CommandResult → ReplicatedStateMachine → Outcome
  | [], results, sm => (sm, .ok (.results results))
  | op :: ops, results, sm =>
    let subEntry : Except PyError LogEntry :=
      match op with
      | .dict data => LogEntry.fromDict (clock sm.commandsApplied) data
      | .entry e => .ok e
      | _ => .error (.attributeError "object has no attribute 'command_type'")
    match subEntry with
    | .error e =>
      match op with
      | .dict _ => (sm, .error e)
      | _ => ({ sm with commandsApplied := sm.commandsApplied + 1 }, .error e)
    | .ok sub =>
      match apply sub sm with
      | (sm', .error e) => (sm', .error e)
      | (sm', .ok res) => applyOps apply clock ops (results ++ [res]) sm'

/-- `apply_command`, with a bound on how deeply batches are nested. -/
def applyWithin : Nat → Clock → LogEntry → ReplicatedStateMachine → Outcome
  | fuel, clock, entry, sm₀ =>
    let sm := { sm₀ with commandsApplied := sm₀.commandsApplied + 1 }
    let now := orNow entry.timestamp (clock sm₀.commandsApplied)
    match entry.commandType with
    | .set =>
      match entry.key with
      | some key => ({ sm with state := sm.state.insert key entry.value }, .ok (.value entry.value))
      | none => (sm, .ok (.value entry.value))
    | .get =>
      match entry.key with
      | some key =>
        (sm, .ok (.value (if key = "" then .none else (sm.state.get? key).getD .none)))
      | none => (sm, .ok (.value .none))
    | .delete =>
      match entry.key with
      | some key =>
        ({ sm with state := sm.state.erase key },
          .ok (.value ((sm.state.get? key).getD .none)))
      | none => (sm, .ok (.value .none))
    | .cas => applyCas entry sm
    | .increment => applyIncrement entry sm
    | .lockAcquire => applyLockAcquire now entry sm
    | .lockRelease => applyLockRelease entry sm
    | .batch =>
      match fuel with
      | 0 => (sm, .error .recursionError)
      | fuel + 1 =>
        sm.withArg (do (← entry.extraData.getD "operations" (.list [])).iter) fun ops =>
          applyOps (applyWithin fuel clock) clock ops [] sm
    | .jobSubmit => applyJobSubmit now entry sm
    | .jobAssign => applyJobAssign now entry sm
    | .jobComplete => applyJobComplete now entry sm
    | .jobFail => applyJobFail now entry sm
    | .jobCancel => applyJobCancel now entry sm
    | .membershipChange => applyMembershipChange entry sm
    | .noop => (sm, .ok (.value (.str "NOOP_APPLIED")))
    | .txPrepare | .txCommit | .txAbort | .barrierRegister | .barrierEnter
    | .semaphoreAcquire | .semaphoreRelease | .raw => (sm, .ok (.value .none))

/-- `apply_command(entry)`. A batch can only hold batches that are nested less deeply, so the depth
of `extra_data` bounds the recursion (`applyWithin_of_depth_lt`). -/
def applyCommand (clock : Clock) (entry : LogEntry) (sm : ReplicatedStateMachine) : Outcome :=
  applyWithin (entry.extraData.depth + 1) clock entry sm

/-- `export_state()`; `now` is what `time.time()` returns. Expired leases are left out. -/
def exportState : SnapshotData :=
  { state := sm.state
    locks := sm.locks.filterValues fun lock => !lock.isExpired now
    jobs := sm.jobs
    clusterMembers := sm.clusterMembers
    fencingTokenCounter := sm.fencingTokenCounter
    commandsApplied := sm.commandsApplied }

/-- `import_state(snapshot_data)`, which overwrites the whole machine. -/
def importState (data : SnapshotData) : ReplicatedStateMachine :=
  { state := data.state
    locks := data.locks
    jobs := data.jobs
    clusterMembers := data.clusterMembers
    fencingTokenCounter := data.fencingTokenCounter
    commandsApplied := data.commandsApplied }

end ReplicatedStateMachine

end MeshWeaver
