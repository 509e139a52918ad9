import Mathlib.Data.Finset.Card
import Mathlib.Data.Finset.Image
import MeshWeaver.Lib.Run
import MeshWeaver.Model.Value

/-!
# Barriers

`DistributedBarrier` with the calls of `enter` that it has seen. No critical section waits for anything
inside, so the lock is always free: `enter` runs up to its wait in one step, and the rest of it, from where
`asyncio.wait_for` comes back, in another one. Between the timer of a call and its handler anything can
happen.
-/

namespace MeshWeaver

open Lib

inductive BarrierState where
  | waiting
  | released
  | timedOut
  | cancelled
deriving DecidableEq, Repr

inductive WaiterFuture where
  | pending
  | result (value : Bool)
  | cancelled
deriving DecidableEq, Repr

/-- Whether the timer of `wait_for` ends a call that waits for this future. From Python 3.12 on it does so even
when the result is already there and the call has not been resumed yet (`late`). -/
def timerFires (late : Bool) (future : WaiterFuture) (timedOut : Bool) (returned : Option Bool) : Bool :=
  returned.isNone && !timedOut && (future = .pending || late)

structure EnterCall where
  participantId : String
  future : WaiterFuture
  timedOut : Bool
  returned : Option Bool
deriving DecidableEq, Repr

namespace EnterCall

def setResult (value : Bool) (call : EnterCall) : EnterCall :=
  if call.future = .pending then { call with future := .result value } else call

def fires (late : Bool) (call : EnterCall) : Bool := timerFires late call.future call.timedOut call.returned

/-- The timer fires: the future is cancelled unless it is done. -/
def expire (call : EnterCall) : EnterCall :=
  { call with timedOut := true, future := if call.future = .pending then .cancelled else call.future }

end EnterCall

/-- `DistributedBarrier`; `waiters` are the calls whose futures are in `_waiters`, by their positions. -/
structure DistributedBarrier where
  threshold : Nat
  parties : Finset String
  state : BarrierState
  generation : Nat
  waiters : List Nat
  calls : List EnterCall

inductive BarrierEvent where
  | enter (participantId : String)
  | expire (call : Nat)
  | resume (call : Nat)
  | reset
  | cancel
deriving DecidableEq, Repr

namespace DistributedBarrier

def new (threshold : Int) : Except PyError DistributedBarrier :=
  if threshold ≤ 0 then .error (.valueError "Barrier threshold must be at least 1")
  else .ok
    { threshold := threshold.toNat, parties := ∅, state := .waiting, generation := 0, waiters := [],
      calls := [] }

variable (b : DistributedBarrier)

/-- The futures of these waiters get a result unless they are done. -/
def settle (waiters : List Nat) (value : Bool) : List EnterCall :=
  b.calls.mapIdx fun i call => if i ∈ waiters then call.setResult value else call

/-- `self.parties` with another participant; a barrier that was released starts anew. -/
def arrivals (participantId : String) : Finset String :=
  insert participantId (if b.state = .released then ∅ else b.parties)

/-- `enter(participant_id)`, up to where it waits or returns. -/
def enter (participantId : String) : DistributedBarrier :=
  let parties := b.arrivals participantId
  if parties.card ≥ b.threshold then
    { b with
      parties
      state := .released
      generation := b.generation + 1
      waiters := []
      calls := b.settle b.waiters true ++ [⟨participantId, .result true, false, some true⟩] }
  else
    { b with
      parties
      state := if b.state = .released then .waiting else b.state
      waiters := b.waiters ++ [b.calls.length]
      calls := b.calls ++ [⟨participantId, .pending, false, none⟩] }

def expire (late : Bool) (i : Nat) : DistributedBarrier :=
  { b with calls := b.calls.modify i fun call => if call.fires late then call.expire else call }

/-- The handler of `asyncio.TimeoutError`. -/
def handleTimeout (i : Nat) : DistributedBarrier :=
  let waiters := b.waiters.erase i
  if b.state = .released then { b with waiters }
  else { b with state := .timedOut, waiters := [], calls := b.settle waiters false }

def finish (i : Nat) (value : Bool) : DistributedBarrier :=
  { b with calls := b.calls.modify i fun call => { call with returned := some value } }

/-- `enter` goes on behind `wait_for`, if there is anything to go on with. -/
def resume (i : Nat) : DistributedBarrier :=
  match b.calls[i]? with
  | none => b
  | some call =>
    if call.returned ≠ none then b
    else if call.timedOut then (b.handleTimeout i).finish i false
    else
      match call.future with
      | .result value => b.finish i value
      | _ => b

def reset : DistributedBarrier :=
  { b with parties := ∅, state := .waiting, waiters := [], calls := b.settle b.waiters false }

def cancel : DistributedBarrier :=
  { b with state := .cancelled, waiters := [], calls := b.settle b.waiters false }

variable (late : Bool)

def step : BarrierEvent → DistributedBarrier
  | .enter participantId => b.enter participantId
  | .expire i => b.expire late i
  | .resume i => b.resume i
  | .reset => b.reset
  | .cancel => b.cancel

def after (events : List BarrierEvent) : DistributedBarrier := run (fun b => b.step late) b events

def returned? (i : Nat) : Option Bool := b.calls[i]?.bind EnterCall.returned

def participant? (i : Nat) : Option String := b.calls[i]?.map EnterCall.participantId

/-! ### Rounds -/

/-- The event releases or resets or cancels the barrier, or is the timeout of a call. -/
def ends : BarrierEvent → Bool
  | .enter participantId => (b.arrivals participantId).card ≥ b.threshold
  | .expire i => b.calls[i]?.any fun call => call.fires late
  | .resume i => b.calls[i]?.any fun call => call.returned.isNone && call.timedOut
  | .reset => true
  | .cancel => true

/-- The first call since the last release, reset, cancellation or timeout. -/
def roundStart : DistributedBarrier → Nat → List BarrierEvent → Nat
  | _, start, [] => start
  | b, start, event :: events =>
    let b' := b.step late event
    roundStart b' (if b.ends late event then b'.calls.length else start) events

/-- The calls since then that have not returned. -/
def inside (events : List BarrierEvent) : List Nat :=
  let b' := b.after late events
  (List.range b'.calls.length).filter fun i => roundStart late b 0 events ≤ i ∧ b'.returned? i = none

def releases : BarrierEvent → Bool
  | .enter participantId => (b.enter participantId).returned? b.calls.length = some true
  | _ => false

/-- The calls that a release behind `events` ends: those that are inside and the one that enters. -/
def gathered (events : List BarrierEvent) : List Nat :=
  b.inside late events ++ [(b.after late events).calls.length]

end DistributedBarrier

end MeshWeaver
