import Mathlib.Data.List.Sort
import MeshWeaver.Raft.FinishedJobs
import MeshWeaver.Raft.Log

/-!
# The job orchestrator

`ConsensusJobOrchestrator` on a leader that is also a worker. The leader's loop assigns submitted jobs and reports
expired ones as failed; the worker's loop starts an execution for each job that is assigned to this node; an
execution reports its result or its failure. All of them propose commands to the log, which are applied in order, at
any time later. Each part that runs without an await is an event of its own. Executions hold the job object itself:
what they read from it is the current record, until a `JOB_SUBMIT` puts another object in its place.
-/

namespace MeshWeaver

open Lib
open ReplicatedStateMachine (Applied history applyCommand)

def ConsensusJob.isExpired (job : ConsensusJob) (now : Rat) : Bool :=
  if job.status = .assigned ∨ job.status = .running then
    match job.assignedAt with
    | none => false
    | some assignedAt => now > assignedAt + job.timeoutSeconds
  else false

/-- `list_jobs(status)`, with the ids of the jobs. -/
def ReplicatedStateMachine.listJobs (sm : ReplicatedStateMachine) (status : ConsensusJobStatus) :
    List (String × ConsensusJob) :=
  sm.jobs.items.filter fun p => p.2.status = status

/-- A job object that is held outside the state machine; `detached` once another one has its place
there, with its last contents. -/
structure JobRef where
  jobId : String
  detached : Option ConsensusJob

namespace JobRef

def read (ref : JobRef) (sm : ReplicatedStateMachine) : Option ConsensusJob :=
  match ref.detached with
  | some job => some job
  | none => sm.jobs.get? ref.jobId

/-- What a command that has been applied does to the reference. -/
def follow (ref : JobRef) (a : Applied) : JobRef :=
  match ref.detached with
  | some _ => ref
  | none =>
    if a.submitted? = some ref.jobId then { ref with detached := a.before.jobs.get? ref.jobId } else ref

def followAll (ref : JobRef) (as : List Applied) : JobRef := as.foldl follow ref

end JobRef

/-- An execution is created, then it runs, then it waits for what it has proposed. `token` is the job's
fencing token when it started to run; `index` is the entry it waits for, a `JOB_COMPLETE` or else a
`JOB_FAIL`. -/
inductive ExecutionPhase where
  | created
  | running (token : Option Int)
  | proposing (token : Option Int) (index : Int) (completing : Bool)
  | done
deriving DecidableEq

structure Execution where
  job : JobRef
  phase : ExecutionPhase

/-- The execution that proposed a command: its job, and the job's token when it started. -/
structure Origin where
  jobId : String
  token : Option Int
deriving DecidableEq

/-- An entry of the log, and the execution it comes from, if it does. -/
structure JobProposal where
  entry : LogEntry
  origin : Option Origin

inductive LeaderPhase where
  | idle
  | scheduling (queue : List (String × String))
  | reaping (queue : List JobRef) (now : Rat) (workers : List String)

structure OrchestratorState where
  stateMachine : ReplicatedStateMachine
  log : List JobProposal
  lastApplied : Nat
  localExecutingJobs : Dict String Execution
  leader : LeaderPhase

/-- The node, its term as leader, what `time.time()` returns while commands are applied, and how a
number of seconds is printed. -/
structure OrchestratorConfig where
  nodeId : String
  term : Int
  clock : Clock
  showSeconds : Rat → String

/-- What an execution does; `expire`: what it waits for is not applied in time. -/
inductive ExecutionAction where
  | start
  | succeed (result : String) (now : Rat)
  | fail (message : String) (now : Rat)
  | expire (now : Rat)

/-- `command`: a client proposes a command. `schedule`, `reap`: the leader looks for submitted jobs and
for assigned ones. `next`: it goes on to the next of them. `work`: a round of the worker's loop. `apply`:
the next entry of the log is applied. -/
inductive OrchestratorEvent where
  | command (command : Command) (now : Rat)
  | schedule (workers : List String)
  | reap (now : Rat) (workers : List String)
  | next (now : Rat)
  | work
  | execution (jobId : String) (action : ExecutionAction)
  | apply

namespace OrchestratorState

variable (cfg : OrchestratorConfig) (s : OrchestratorState)

def init : OrchestratorState := ⟨.empty, [], 0, .empty, .idle⟩

def newEntry (command : Command) (now : Rat) : LogEntry :=
  { index := s.log.length + 1, term := cfg.term, commandType := command.commandType,
    key := command.key, value := command.value,
    clientId := some (orStr command.clientId cfg.nodeId), timestamp := now,
    fencingToken := command.fencingToken, extraData := .dict command.extraData }

/-- `propose_command` on a leader, up to where it waits. -/
def propose (command : Command) (now : Rat) (origin : Option Origin) : OrchestratorState :=
  { s with log := s.log ++ [⟨s.newEntry cfg command now, origin⟩] }

/-! ### The leader's loop -/

def assignCommand (jobId worker : String) : Command :=
  { commandType := .jobAssign, key := some jobId, value := .none, clientId := some cfg.nodeId,
    fencingToken := none, extraData := [("job_id", .str jobId), ("worker_id", .str worker)] }

def failCommand (jobId message : String) : Command :=
  { commandType := .jobFail, key := some jobId, value := .none, clientId := some cfg.nodeId,
    fencingToken := none, extraData := [("job_id", .str jobId), ("error_message", .str message)] }

/-- The jobs `_schedule_pending_jobs` assigns, and to whom: by priority and age, in turn to the
workers. -/
def pendingJobs (workers : List String) : List (String × String) :=
  let pending := (s.stateMachine.listJobs .submitted).insertionSort fun a b =>
    a.2.priority < b.2.priority ∨ a.2.priority = b.2.priority ∧ a.2.createdAt ≤ b.2.createdAt
  let workers := if workers = [] then [cfg.nodeId] else workers
  pending.zipIdx.map fun p => (p.1.1, workers.getD (p.2 % workers.length) cfg.nodeId)

/-- `job.assigned_to is not None and job.assigned_to not in available_workers and …`: a value that cannot
be hashed raises. -/
def workerDead (workers : List String) (job : ConsensusJob) : Except PyError Bool :=
  match job.assignedTo with
  | .none => .ok false
  | .str worker => .ok (worker ∉ workers ∧ worker ≠ cfg.nodeId)
  | .list _ | .dict _ | .entry _ => .error (.typeError "unhashable type")
  | _ => .ok true

/-- One round of the loop of `_reap_orphan_jobs`. -/
def reapNext (job : JobRef) (rest : List JobRef) (scanned : Rat) (workers : List String) (now : Rat) :
    OrchestratorState :=
  match job.read s.stateMachine with
  | none => { s with leader := .reaping rest scanned workers }
  | some record =>
    match workerDead cfg workers record with
    | .error _ => { s with leader := .idle }
    | .ok dead =>
      if record.isExpired scanned || dead then
        let reason :=
          if dead then "Worker unreachable/dead"
          else "Job execution timeout (" ++ cfg.showSeconds record.timeoutSeconds ++ "s exceeded)"
        { s.propose cfg (failCommand cfg job.jobId reason) now none with
          leader := .reaping rest scanned workers }
      else { s with leader := .reaping rest scanned workers }

def nextJob (now : Rat) : OrchestratorState :=
  match s.leader with
  | .idle => s
  | .scheduling [] => { s with leader := .idle }
  | .scheduling ((jobId, worker) :: rest) =>
    { s.propose cfg (assignCommand cfg jobId worker) now none with leader := .scheduling rest }
  | .reaping [] _ _ => { s with leader := .idle }
  | .reaping (job :: rest) scanned workers => s.reapNext cfg job rest scanned workers now

/-! ### The worker -/

def completeCommand (jobId : String) (token : Option Int) (result : String) : Command :=
  { commandType := .jobComplete, key := some jobId, value := .none, clientId := some cfg.nodeId,
    fencingToken := token,
    extraData := [("job_id", .str jobId), ("fencing_token", Value.ofOptInt token),
      ("result_bytes", .str result)] }

/-- `asyncio.create_task(self._execute_assigned_job(job))`, unless the job has a task already. -/
def createTask (executing : Dict String Execution) (jobId : String) : Dict String Execution :=
  match executing.get? jobId with
  | some _ => executing
  | none => executing.insert jobId ⟨⟨jobId, none⟩, .created⟩

/-- One round of `_worker_execution_loop`. -/
def workRound : OrchestratorState :=
  let mine := (s.stateMachine.listJobs .assigned).filter fun p => p.2.assignedTo.pyEq (.str cfg.nodeId)
  let executing := (mine.map Prod.fst).foldl createTask s.localExecutingJobs
  { s with localExecutingJobs := executing.filterValues fun e => e.phase ≠ .done }

def tokenOf (e : Execution) : Option Int :=
  match e.job.read s.stateMachine with
  | some job => job.fencingToken
  | none => none

def setPhase (jobId : String) (e : Execution) (phase : ExecutionPhase) : OrchestratorState :=
  { s with localExecutingJobs := s.localExecutingJobs.insert jobId { e with phase } }

/-- An execution proposes `JOB_COMPLETE` or `JOB_FAIL` and waits. -/
def report (jobId : String) (e : Execution) (token : Option Int) (command : Command) (completing : Bool)
    (now : Rat) : OrchestratorState :=
  (s.setPhase jobId e (.proposing token (s.log.length + 1) completing)).propose cfg command now
    (some ⟨jobId, token⟩)

/-- `_execute_assigned_job`: any exception before the result is proposed, or the proposal's timeout, is
reported as a failure. -/
def execute (jobId : String) (e : Execution) : ExecutionAction → OrchestratorState
  | .start =>
    match e.phase with
    | .created => s.setPhase jobId e (.running (s.tokenOf e))
    | _ => s
  | .succeed result now =>
    match e.phase with
    | .running token =>
      s.report cfg jobId e token (completeCommand cfg jobId (s.tokenOf e) result) true now
    | _ => s
  | .fail message now =>
    match e.phase with
    | .running token => s.report cfg jobId e token (failCommand cfg jobId message) false now
    | _ => s
  | .expire now =>
    match e.phase with
    | .proposing token index true =>
      let message := "Proposal for index " ++ toString index ++
        " timed out waiting for consensus quorum after 5.0s"
      s.report cfg jobId e token (failCommand cfg jobId message) false now
    | .proposing _ _ false => s.setPhase jobId e .done
    | _ => s

/-! ### The log -/

/-- The references after the commands `as` have been applied. -/
def LeaderPhase.followAll (as : List Applied) : LeaderPhase → LeaderPhase
  | .reaping queue now workers => .reaping (queue.map (·.followAll as)) now workers
  | phase => phase

/-- The entry an execution waits for has been applied. -/
def resolve (index : Int) (e : Execution) : Execution :=
  match e.phase with
  | .proposing _ awaited _ => if awaited = index then { e with phase := .done } else e
  | _ => e

/-- `apply_committed_entries` for one entry. One that raises is not marked as applied. -/
def applyNext (p : JobProposal) : OrchestratorState :=
  let (stateMachine, result) := applyCommand cfg.clock p.entry s.stateMachine
  let as := history cfg.clock p.entry s.stateMachine
  let followed : OrchestratorState :=
    { s with
      stateMachine
      localExecutingJobs := s.localExecutingJobs.mapValues fun e => { e with job := e.job.followAll as }
      leader := LeaderPhase.followAll as s.leader }
  match result with
  | .error _ => followed
  | .ok _ =>
    { followed with
      lastApplied := s.lastApplied + 1
      localExecutingJobs := followed.localExecutingJobs.mapValues (resolve p.entry.index) }

def step : OrchestratorEvent → OrchestratorState
  | .command command now => s.propose cfg command now none
  | .schedule workers =>
    match s.leader with
    | .idle => { s with leader := .scheduling (s.pendingJobs cfg workers) }
    | _ => s
  | .reap now workers =>
    match s.leader with
    | .idle =>
      let assigned := (s.stateMachine.listJobs .assigned).map fun p => (⟨p.1, none⟩ : JobRef)
      { s with leader := .reaping assigned now workers }
    | _ => s
  | .next now => s.nextJob cfg now
  | .work => s.workRound cfg
  | .execution jobId action =>
    match s.localExecutingJobs.get? jobId with
    | none => s
    | some e => s.execute cfg jobId e action
  | .apply =>
    match s.log[s.lastApplied]? with
    | none => s
    | some p => s.applyNext cfg p

end OrchestratorState

end MeshWeaver
