import MeshWeaver.Sync.Barrier

/-!
# Semaphores

`DistributedSemaphore` with the calls of `acquire` that it has seen. No critical section waits for anything inside, so
`acquire` runs up to its wait in one step and the rest of it in another one. Every call comes with the times it reads
from the clock.
-/

namespace MeshWeaver

open Lib

structure AcquireCall where
  holderId : String
  leaseTtl : Rat
  future : WaiterFuture
  timedOut : Bool
  returned : Option Bool
deriving DecidableEq

namespace AcquireCall

def fires (late : Bool) (call : AcquireCall) : Bool := timerFires late call.future call.timedOut call.returned

def cancelFuture (call : AcquireCall) : AcquireCall :=
  if call.future = .pending then { call with future := .cancelled } else call

end AcquireCall

/-- `DistributedSemaphore`; `waitQueue` are the calls whose futures are in `_wait_queue`, by their
positions. -/
structure DistributedSemaphore where
  totalPermits : Nat
  defaultTtlSeconds : Rat
  holders : Dict String Rat
  waitQueue : List Nat
  calls : List AcquireCall

/-- What happens to a semaphore: calls, timers of calls of `acquire`, calls that are resumed, and tasks that
are cancelled while they wait in `acquire`. A release reads the clock once more when it hands its permit
over. -/
inductive SemaphoreEvent where
  | acquire (holderId : String) (ttlSeconds : Option Rat) (now : Rat)
  | release (holderId : String) (now later : Rat)
  | cleanupExpiredLeases (now : Rat)
  | expire (call : Nat)
  | resume (call : Nat)
  | abandon (call : Nat)
deriving DecidableEq

namespace DistributedSemaphore

def new (totalPermits : Int) (defaultTtlSeconds : Rat) : Except PyError DistributedSemaphore :=
  if totalPermits ≤ 0 then .error (.valueError "Total permits must be at least 1")
  else .ok
    { totalPermits := totalPermits.toNat, defaultTtlSeconds, holders := .empty, waitQueue := [], calls := [] }

variable (s : DistributedSemaphore)

/-- `active_permits`, at the time `now` -/
def activePermits (now : Rat) : Nat := s.holders.values.countP fun expiry => now < expiry

def cleanupExpiredLeases (now : Rat) : DistributedSemaphore :=
  { s with holders := s.holders.filterValues fun expiry => now < expiry }

/-- `ttl_seconds if ttl_seconds is not None else self.default_ttl_seconds` -/
def leaseTtl (ttlSeconds : Option Rat) : Rat := ttlSeconds.getD s.defaultTtlSeconds

def letIn (holderId : String) (leaseTtl now : Rat) : DistributedSemaphore :=
  { s with
    holders := s.holders.insert holderId (now + leaseTtl)
    calls := s.calls ++ [⟨holderId, leaseTtl, .result true, false, some true⟩] }

def enqueue (holderId : String) (leaseTtl : Rat) : DistributedSemaphore :=
  { s with
    waitQueue := s.waitQueue ++ [s.calls.length]
    calls := s.calls ++ [⟨holderId, leaseTtl, .pending, false, none⟩] }

/-- `acquire(holder_id, ttl_seconds)`, up to where it waits or returns. -/
def acquire (holderId : String) (ttlSeconds : Option Rat) (now : Rat) : DistributedSemaphore :=
  let leaseTtl := s.leaseTtl ttlSeconds
  let s := s.cleanupExpiredLeases now
  if (s.holders.get? holderId).isSome then s.letIn holderId leaseTtl now
  else if s.holders.items.length < s.totalPermits then s.letIn holderId leaseTtl now
  else s.enqueue holderId leaseTtl

def pending (i : Nat) : Bool := s.calls[i]?.any fun call => call.future = .pending

/-- The call `i` gets a lease, and its future the result `True`. -/
def handOver (later : Rat) (i : Nat) (call : AcquireCall) (queue : List Nat) : DistributedSemaphore :=
  { s with
    holders := s.holders.insert call.holderId (later + call.leaseTtl)
    waitQueue := queue
    calls := s.calls.modify i fun call => { call with future := .result true } }

/-- The loop of `release` over the queue. -/
def wakeNext (later : Rat) : List Nat → DistributedSemaphore
  | [] => { s with waitQueue := [] }
  | i :: queue =>
    if s.holders.items.length < s.totalPermits then
      match s.calls[i]? with
      | none => wakeNext later queue
      | some call => if call.future = .pending then s.handOver later i call queue else wakeNext later queue
    else { s with waitQueue := i :: queue }

def withdraw (holderId : String) : DistributedSemaphore := { s with holders := s.holders.erase holderId }

def release (holderId : String) (now later : Rat) : DistributedSemaphore × Bool :=
  let s := s.cleanupExpiredLeases now
  if (s.holders.get? holderId).isNone then (s, false)
  else ((s.withdraw holderId).wakeNext later s.waitQueue, true)

def expire (late : Bool) (i : Nat) : DistributedSemaphore :=
  { s with
    calls := s.calls.modify i fun call =>
      if call.fires late then { call.cancelFuture with timedOut := true } else call }

def finish (i : Nat) (value : Bool) : DistributedSemaphore :=
  { s with calls := s.calls.modify i fun call => { call with returned := some value } }

/-- `acquire` goes on behind `wait_for`, if there is anything to go on with: its handler of
`asyncio.TimeoutError` takes the future out of the queue. -/
def resume (i : Nat) : DistributedSemaphore :=
  match s.calls[i]? with
  | none => s
  | some call =>
    if call.returned ≠ none then s
    else if call.timedOut then { s with waitQueue := s.waitQueue.erase i }.finish i false
    else
      match call.future with
      | .result value => s.finish i value
      | _ => s

/-- The task that waits in the call is cancelled: the future stays in the queue. -/
def abandon (i : Nat) : DistributedSemaphore :=
  { s with calls := s.calls.modify i AcquireCall.cancelFuture }

variable (late : Bool)

def step : SemaphoreEvent → DistributedSemaphore
  | .acquire holderId ttlSeconds now => s.acquire holderId ttlSeconds now
  | .release holderId now later => (s.release holderId now later).1
  | .cleanupExpiredLeases now => s.cleanupExpiredLeases now
  | .expire i => s.expire late i
  | .resume i => s.resume i
  | .abandon i => s.abandon i

def after (events : List SemaphoreEvent) : DistributedSemaphore := run (fun s => s.step late) s events

/-! ### Permits -/

/-- The call `i` has been told that it has a permit. -/
def admitted (i : Nat) : Bool := s.calls[i]?.any fun call => call.future = .result true

/-- The event gives a permit to the call `i`, or renews the lease of its holder. -/
def Admits (event : SemaphoreEvent) (i : Nat) : Prop :=
  s.admitted i = false ∧ (s.step late event).admitted i = true
deriving Decidable

def holder? (i : Nat) : Option String := s.calls[i]?.map AcquireCall.holderId

/-- The time at which an event looks for expired leases. -/
def reading? : SemaphoreEvent → Option Rat
  | .acquire _ _ now => some now
  | .release _ now _ => some now
  | .cleanupExpiredLeases now => some now
  | _ => none

def releaser? : SemaphoreEvent → Option String
  | .release holderId _ _ => some holderId
  | _ => none

/-- The event is not a release by the holder, and the lease that the holder has, if any, has not expired. -/
def Undisturbed (holderId : String) (event : SemaphoreEvent) : Prop :=
  releaser? event ≠ some holderId ∧ ∀ now ∈ reading? event, ∀ expiry ∈ s.holders.get? holderId, now < expiry
deriving Decidable

end DistributedSemaphore

end MeshWeaver
