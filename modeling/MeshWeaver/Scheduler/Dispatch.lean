import MeshWeaver.Scheduler.Workers

/-!
# Dispatching a task

`TaskScheduler.dispatch_task` sends a task to a worker, waits for the answer, and tries again elsewhere when that fails.
Calls overlap: a call runs in one piece up to where it waits for an answer, from there to its pause, and from the pause
to the next attempt. What is recorded of an attempt is recorded partly before the result is unpacked and partly by the
handler of what unpacking raises. How a worker answers is an argument of the event; `loads` unpickles results.
-/

namespace MeshWeaver

open Lib

/-- `TaskResult`, as far as it is read here. -/
structure TaskResult where
  success : Bool
  resultBytes : Option (List UInt8) := none
  errorType : Option String := none
  errorMessage : Option String := none
  traceback : Option String := none
deriving DecidableEq

/-- What a task raises: a `RemoteExecutionError`, what a breaker raises, or any other exception with its text. -/
inductive TaskError where
  | remoteExecutionError (errorType errorMessage remoteTraceback : String)
  | raised (error : PyError)
  | other (message : String)
deriving DecidableEq

def TaskError.message : TaskError → String
  | .remoteExecutionError errorType errorMessage remoteTraceback =>
    "Remote task failed with " ++ errorType ++ ": " ++ errorMessage ++ "\n--- Remote Traceback ---\n" ++ remoteTraceback
  | .raised error =>
    match error with
    | .valueError message | .typeError message | .attributeError message | .runtimeError message
    | .nameError message | .overflowError message => message
    | .keyError key => "'" ++ key ++ "'"
    | .recursionError => "maximum recursion depth exceeded"
  | .other message => message

/-- `value or default` of an optional text. -/
def textOr (text : Option String) (default : String) : String :=
  if text.getD "" = "" then default else text.getD ""

def unpackResult {α : Type} (loads : List UInt8 → Except TaskError α) (result : TaskResult) :
    Except TaskError (Option α) :=
  if result.success then
    match result.resultBytes with
    | none => .ok none
    | some bytes => (loads bytes).map some
  else
    .error (.remoteExecutionError (textOr result.errorType "UnknownError")
      (textOr result.errorMessage "No error message provided") (textOr result.traceback "No traceback available"))

inductive AttemptEnd (α : Type) where
  | returned (value : Option α)
  | raised (error : TaskError)
  | failed (error : TaskError)

/-- An attempt that has ended: the breakers, the outcomes that were recorded, and how it ended. -/
structure SettledAttempt (α : Type) where
  registry : CircuitBreakerRegistry
  recorded : List Outcome
  ending : AttemptEnd α

section Settling

variable {α : Type} (loads : List UInt8 → Except TaskError α)

def tryAttempt (registry : CircuitBreakerRegistry) (nodeId : String) (sent : Except TaskError TaskResult)
    (clock : Nat → Rat) : CircuitBreakerRegistry × List Outcome × Except TaskError (Option α) :=
  match sent with
  | .error error => (registry, [], .error error)
  | .ok result =>
    match registry.recordNodeSuccess nodeId clock with
    | (registry, .error error) => (registry, [], .error (.raised error))
    | (registry, .ok ()) => (registry, [.success], unpackResult loads result)

/-- What a handler leaves that records an outcome and then goes on, unless recording it raises. -/
def afterRecording (recording : CircuitBreakerRegistry × Except PyError Unit) (outcome : Outcome)
    (recorded : List Outcome) (ending : AttemptEnd α) : SettledAttempt α :=
  match recording.2 with
  | .ok () => ⟨recording.1, recorded ++ [outcome], ending⟩
  | .error error => ⟨recording.1, recorded, .raised (.raised error)⟩

def handleAttempt (trip : Bool) (nodeId : String) (clock : Nat → Rat) (registry : CircuitBreakerRegistry)
    (recorded : List Outcome) (outcome : Except TaskError (Option α)) : SettledAttempt α :=
  match outcome with
  | .ok value => ⟨registry, recorded, .returned value⟩
  | .error (.remoteExecutionError errorType message traceback) =>
    afterRecording (registry.recordNodeSuccess nodeId clock) .success recorded
      (.raised (.remoteExecutionError errorType message traceback))
  | .error failure =>
    if trip then afterRecording (registry.recordNodeFailure nodeId clock) .failure recorded (.failed failure)
    else ⟨registry, recorded, .failed failure⟩

def settleAttempt (registry : CircuitBreakerRegistry) (trip : Bool) (nodeId : String)
    (sent : Except TaskError TaskResult) (clock : Nat → Rat) : SettledAttempt α :=
  let (registry, recorded, outcome) := tryAttempt loads registry nodeId sent clock
  handleAttempt trip nodeId (fun i => clock (4 + i)) registry recorded outcome

end Settling

/-! ### Calls -/

inductive CallPhase (α : Type) where
  | sending (worker : WorkerCandidate)
  | pausing (worker : WorkerCandidate)
  | runsLocally
  | returned (result : Except TaskError (Option α))

structure DispatchCall (α : Type) where
  name : String
  policy : Option SchedulingPolicy
  retries : RetryPolicy
  fallbackLocal : Bool
  attempt : Nat
  excludedNodes : List String
  lastException : Option TaskError
  phase : CallPhase α

namespace DispatchCall

variable {α : Type} (call : DispatchCall α)

/-- There is no worker left: the task runs here, or the call raises. -/
def giveUp (message : String) : DispatchCall α :=
  { call with
    phase := if call.fallbackLocal then .runsLocally else .returned (.error (.raised (.runtimeError message))) }

def exhaustedMessage : String :=
  "Failed to execute task " ++ call.name ++ " after " ++ toString call.retries.maxRetries ++ " attempts: " ++
    (call.lastException.map TaskError.message).getD "None"

def noWorkersMessage : String := "No available compute workers in mesh network for " ++ call.name

end DispatchCall

/-- A scheduler with the calls of `dispatch_task` that it has seen. -/
structure Dispatching (α : Type) where
  scheduler : TaskScheduler
  calls : List (DispatchCall α)

/-- What happens to a scheduler: a task is dispatched, a worker answers a call or the transport to it fails, the
pause of a call is over, or gossip has other peers. -/
inductive DispatchEvent where
  | dispatch (name : String) (policy : Option SchedulingPolicy) (retryPolicy : Option RetryPolicy)
      (fallbackLocal : Bool) (selection : Selection)
  | settle (call : Nat) (sent : Except TaskError TaskResult) (clock : Nat → Rat)
  | wake (call : Nat) (selection : Selection)
  | gossip (peers : Dict String PeerLoadSnapshot)

namespace TaskScheduler

variable (scheduler : TaskScheduler)

def enlist (nodeId : String) : TaskScheduler :=
  { scheduler with
    activeTasks := scheduler.activeTasks.insert nodeId ((scheduler.activeTasks.get? nodeId).getD 0 + 1) }

def discharge (nodeId : String) : TaskScheduler :=
  match scheduler.activeTasks.get? nodeId with
  | none => scheduler
  | some active => { scheduler with activeTasks := scheduler.activeTasks.insert nodeId (active - 1) }

/-- The call goes on with attempt number `call.attempt`. -/
def tryNext {α : Type} (call : DispatchCall α) (selection : Selection) : TaskScheduler × DispatchCall α :=
  if call.attempt > call.retries.maxRetries then (scheduler, call.giveUp call.exhaustedMessage)
  else
    match scheduler.selectWorker call.policy call.excludedNodes selection with
    | (scheduler, .error error) => (scheduler, { call with phase := .returned (.error (.raised error)) })
    | (scheduler, .ok none) => (scheduler, call.giveUp call.noWorkersMessage)
    | (scheduler, .ok (some worker)) => (scheduler.enlist worker.nodeId, { call with phase := .sending worker })

end TaskScheduler

namespace Dispatching

variable {α : Type} (loads : List UInt8 → Except TaskError α) (s : Dispatching α)

/-- What the call does with an attempt that has ended. -/
def conclude (number : Nat) (call : DispatchCall α) (worker : WorkerCandidate) (settled : SettledAttempt α) :
    Dispatching α :=
  let scheduler := { s.scheduler with circuitBreakers := settled.registry }
  match settled.ending with
  | .returned value =>
    ⟨scheduler.discharge worker.nodeId, s.calls.set number { call with phase := .returned (.ok value) }⟩
  | .raised error =>
    ⟨scheduler.discharge worker.nodeId, s.calls.set number { call with phase := .returned (.error error) }⟩
  | .failed error =>
    let excluded := if call.retries.excludeFailedNodes then worker.nodeId :: call.excludedNodes else call.excludedNodes
    let call := { call with lastException := some error, excludedNodes := excluded }
    if call.attempt < call.retries.maxRetries then
      ⟨scheduler, s.calls.set number { call with phase := .pausing worker }⟩
    else ⟨scheduler.discharge worker.nodeId, s.calls.set number (call.giveUp call.exhaustedMessage)⟩

def awaiting? (number : Nat) : Option (DispatchCall α × WorkerCandidate) :=
  s.calls[number]?.bind fun call =>
    match call.phase with
    | .sending worker => some (call, worker)
    | _ => none

def settled (call : DispatchCall α) (worker : WorkerCandidate) (sent : Except TaskError TaskResult)
    (clock : Nat → Rat) : SettledAttempt α :=
  settleAttempt loads s.scheduler.circuitBreakers call.retries.tripCircuitOnTransportFailure worker.nodeId sent clock

def step : DispatchEvent → Dispatching α
  | .dispatch name policy retryPolicy fallbackLocal selection =>
    let call : DispatchCall α :=
      { name, policy, retries := retryPolicy.getD s.scheduler.retryPolicy, fallbackLocal, attempt := 1,
        excludedNodes := [], lastException := none, phase := .runsLocally }
    let (scheduler, call) := s.scheduler.tryNext call selection
    ⟨scheduler, s.calls ++ [call]⟩
  | .settle number sent clock =>
    match s.awaiting? number with
    | none => s
    | some (call, worker) => s.conclude number call worker (s.settled loads call worker sent clock)
  | .wake number selection =>
    match s.calls[number]? with
    | none => s
    | some call =>
      match call.phase with
      | .pausing worker =>
        let (scheduler, call) := (s.scheduler.discharge worker.nodeId).tryNext
          { call with attempt := call.attempt + 1 } selection
        ⟨scheduler, s.calls.set number call⟩
      | _ => s
  | .gossip peers => { s with scheduler := { s.scheduler with peers := s.scheduler.peers.map fun _ => peers } }

end Dispatching

end MeshWeaver
