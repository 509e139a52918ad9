import MeshWeaver.Lib.Run
import MeshWeaver.Queue.Tasks

/-!
# The priority dispatcher

The workers are coroutines of one event loop: each runs until it waits for the pause event, for a task in `pop`, for
the task that it executes, or after an error; the lock of the queue is never held meanwhile.

Waiting for an event ends when the event is set, not when it is still set as the worker runs: a worker that was
released goes on even if there is a new pause by then. A push wakes the worker that has waited in `pop` for longest,
and this one looks again whether there is a task. There is no `stop`.
-/

namespace MeshWeaver

open Lib

/-- Where a worker is: it has not run yet; it waits for the pause event, or was released from that; it waits in
`pop`, or was notified there; it executes a task; it sleeps after an error; or it has ended. -/
inductive WorkerLoop where
  | starting
  | held
  | released
  | waiting
  | notified
  | executing (task : PrioritizedTask)
  | sleeping
  | ended
deriving DecidableEq

/-- How the execution of a task ends: it returns, it raises an exception that a future can be given or cannot, or it
is ended by a `CancelledError` or another exception that is no `Exception`. -/
inductive TaskEnd where
  | completed
  | failed (raisable : Bool)
  | interrupted
deriving DecidableEq, Repr

/-- Where a worker goes on: at the head of its loop or in `pop`. -/
inductive LoopEntry where
  | top | pop
deriving DecidableEq, Repr

namespace PriorityTaskQueue

variable (queue : PriorityTaskQueue)

def countCancelled : PriorityTaskQueue :=
  { queue with metrics := { queue.metrics with totalCancelled := queue.metrics.totalCancelled + 1 } }

def countCompleted : PriorityTaskQueue :=
  { queue with metrics := { queue.metrics with totalCompleted := queue.metrics.totalCompleted + 1 } }

def countFailed : PriorityTaskQueue :=
  { queue with metrics := { queue.metrics with totalFailed := queue.metrics.totalFailed + 1 } }

end PriorityTaskQueue

/-- A worker in `pop`, until it waits again or executes a task; a clock for each time that it pops. A cancelled task
is counted and takes it to the head of the loop, where it is held up if there is a pause. -/
def PriorityTaskQueue.fetch (paused : Bool) : Nat → (Nat → Nat → Rat) → PriorityTaskQueue →
    PriorityTaskQueue × WorkerLoop
  | 0, _, queue => (queue, .waiting)
  | fuel + 1, clocks, queue =>
    match queue.pop (clocks 0) with
    | none => (queue, .waiting)
    | some (task, rest) =>
      if task.cancelled then
        if paused then (rest.countCancelled, .held)
        else fetch paused fuel (fun i => clocks (i + 1)) rest.countCancelled
      else (rest, .executing task)

/-- `PriorityDispatcher`; the pause event is set just if it is not `paused`. The `waiters` are the workers that wait
in `pop`, those that have waited for longest first. -/
structure PriorityDispatcher where
  queue : PriorityTaskQueue
  concurrency : Nat
  running : Bool
  paused : Bool
  workers : List WorkerLoop
  waiters : List Nat

/-- What happens to a dispatcher. `run`: the event loop runs a worker that can go on. `finish`: the execution of a
worker's task ends, and the worker goes on. `abandon`: the owner of a future cancels it. -/
inductive DispatcherEvent where
  | start
  | submit (taskId : String) (priority : TaskPriority) (deadline : Option Rat) (createdAt : Rat) (clock : Nat → Rat)
  | run (worker : Nat) (clocks : Nat → Nat → Rat)
  | finish (worker : Nat) (ending : TaskEnd) (clocks : Nat → Nat → Rat)
  | pause
  | resume
  | cancelTask (taskId : String)
  | flush
  | abandon (sequence : Nat)

/-- Where the event loop takes up a worker. -/
def WorkerLoop.entry? : WorkerLoop → Option LoopEntry
  | .starting => some .top
  | .sleeping => some .top
  | .released => some .pop
  | .notified => some .pop
  | _ => none

def WorkerLoop.isExecuting : WorkerLoop → Bool
  | .executing _ => true
  | _ => false

def PrioritizedTask.abandon (sequence : Nat) (task : PrioritizedTask) : PrioritizedTask :=
  if task.sequence = sequence then { task with future := cancelFuture task.future } else task

def WorkerLoop.abandon (sequence : Nat) : WorkerLoop → WorkerLoop
  | .executing task => .executing (task.abandon sequence)
  | state => state

/-- What the setting of the pause event does to a worker. -/
def WorkerLoop.release (state : WorkerLoop) : WorkerLoop := if state = .held then .released else state

namespace PriorityDispatcher

def new (concurrency : Nat) (agingIntervalSeconds deadlineBoostWeight : Rat) : PriorityDispatcher :=
  { queue := { agingIntervalSeconds, deadlineBoostWeight }, concurrency := max 1 concurrency, running := false,
    paused := false, workers := [], waiters := [] }

variable (s : PriorityDispatcher)

/-- `notify()`, of the condition of the queue. -/
def notify : PriorityDispatcher :=
  match s.waiters with
  | [] => s
  | worker :: rest => { s with workers := s.workers.set worker .notified, waiters := rest }

def submit (taskId : String) (priority : TaskPriority) (deadline : Option Rat) (createdAt : Rat)
    (clock : Nat → Rat) : PriorityDispatcher :=
  let task : PrioritizedTask :=
    { taskId, basePriority := priority, createdAt, deadline, future := some .pending }
  { s with queue := s.queue.push task clock }.notify

/-- What stops a worker before it gets to `pop`. -/
def stops? (entry : LoopEntry) : Option WorkerLoop :=
  match entry with
  | .pop => none
  | .top => if s.running = false then some .ended else if s.paused then some .held else none

/-- The worker is in a new state; it joins the others if it waits in `pop`. -/
def place (worker : Nat) (state : WorkerLoop) : PriorityDispatcher :=
  { s with
    workers := s.workers.set worker state
    waiters := if state = .waiting then s.waiters ++ [worker] else s.waiters }

/-- The worker goes on until it has to wait. -/
def advance (worker : Nat) (entry : LoopEntry) (clocks : Nat → Nat → Rat) : PriorityDispatcher :=
  match s.stops? entry with
  | some state => s.place worker state
  | none =>
    let (queue, state) := s.queue.fetch s.paused s.queue.heap.length clocks
    { s with queue }.place worker state

def finish (worker : Nat) (task : PrioritizedTask) (ending : TaskEnd) (clocks : Nat → Nat → Rat) :
    PriorityDispatcher :=
  match ending with
  | .completed => { s with queue := s.queue.countCompleted }.advance worker .top clocks
  | .failed raisable =>
    let s := { s with queue := s.queue.countFailed }
    if raisable = false ∧ task.future = some .pending then s.place worker .sleeping
    else s.advance worker .top clocks
  | .interrupted => s.place worker .ended

def step : DispatcherEvent → PriorityDispatcher
  | .start =>
    if s.running then s else { s with running := true, workers := List.replicate s.concurrency .starting }
  | .submit taskId priority deadline createdAt clock => s.submit taskId priority deadline createdAt clock
  | .run worker clocks =>
    match s.workers[worker]?.bind WorkerLoop.entry? with
    | none => s
    | some entry => s.advance worker entry clocks
  | .finish worker ending clocks =>
    match s.workers[worker]? with
    | some (.executing task) => s.finish worker task ending clocks
    | _ => s
  | .pause => { s with paused := true }
  | .resume => { s with paused := false, workers := s.workers.map WorkerLoop.release }
  | .cancelTask taskId => { s with queue := (s.queue.cancelTask taskId).1 }
  | .flush => { s with queue := s.queue.flushQueue.1 }
  | .abandon sequence =>
    { s with
      queue := { s.queue with heap := s.queue.heap.map (PrioritizedTask.abandon sequence) }
      workers := s.workers.map (WorkerLoop.abandon sequence) }

end PriorityDispatcher

/-! ### Sequence numbers -/

/-- The tasks of the queue have their own sequence numbers, which were given out already. -/
structure PriorityTaskQueue.Numbered (queue : PriorityTaskQueue) : Prop where
  nodup : (queue.heap.map PrioritizedTask.sequence).Nodup
  le : ∀ task ∈ queue.heap, task.sequence ≤ queue.sequenceCounter

namespace PriorityTaskQueue.Numbered

variable {queue : PriorityTaskQueue}

section

variable (h : queue.Numbered)
include h

theorem push (task : PrioritizedTask) (clock : Nat → Rat) : (queue.push task clock).Numbered := by
  have hperm : (queue.push task clock).heap.Perm (queue.entered task :: queue.heap) := Heap.heappush_perm _ _ _
  constructor
  · rw [(hperm.map _).nodup_iff, List.map_cons, List.nodup_cons]
    refine ⟨fun hmem => ?_, h.nodup⟩
    obtain ⟨old, hold, heq⟩ := List.mem_map.mp hmem
    have hle := h.le old hold
    rw [heq] at hle
    exact Nat.not_succ_le_self _ hle
  · intro task' htask'
    rcases List.mem_cons.mp (hperm.mem_iff.mp htask') with rfl | hold
    · exact Nat.le_refl _
    · exact (h.le task' hold).trans (Nat.le_succ _)

theorem of_perm {rest : PriorityTaskQueue} {task : PrioritizedTask}
    (hperm : (task :: rest.heap).Perm queue.heap) (hcounter : rest.sequenceCounter = queue.sequenceCounter) :
    rest.Numbered := by
  have hnodup := (hperm.map PrioritizedTask.sequence).nodup_iff.mpr h.nodup
  refine ⟨(List.nodup_cons.mp hnodup).2, fun task' htask' => ?_⟩
  rw [hcounter]
  exact h.le task' (hperm.mem_iff.mp (List.mem_cons_of_mem _ htask'))

theorem fetch (paused : Bool) (fuel : Nat) (clocks : Nat → Nat → Rat) :
    (queue.fetch paused fuel clocks).1.Numbered := by
  induction fuel generalizing queue clocks with
  | zero => exact h
  | succ fuel ih =>
    rw [PriorityTaskQueue.fetch]
    rcases queue.pop_cases (clocks 0) with ⟨-, hpop, -⟩ | ⟨task, rest, promotions, hpop, -, hperm, hcounter, -⟩
    · rwa [hpop]
    · rw [hpop]
      have hrest := h.of_perm hperm hcounter
      have hcounted : rest.countCancelled.Numbered := ⟨hrest.nodup, hrest.le⟩
      dsimp only
      split_ifs
      · exact hcounted
      · exact ih hcounted _
      · exact hrest

theorem map {f : PrioritizedTask → PrioritizedTask} (hf : ∀ task, (f task).sequence = task.sequence)
    (metrics : PriorityMetrics) : ({ queue with heap := queue.heap.map f, metrics } : PriorityTaskQueue).Numbered := by
  constructor
  · have hsame : PrioritizedTask.sequence ∘ f = PrioritizedTask.sequence := funext hf
    rw [List.map_map, hsame]
    exact h.nodup
  · intro task htask
    obtain ⟨old, hold, rfl⟩ := List.mem_map.mp htask
    rw [hf]
    exact h.le old hold

theorem cancelTask (taskId : String) : (queue.cancelTask taskId).1.Numbered := by
  rw [PriorityTaskQueue.cancelTask]
  cases queue.tasksById.get? taskId with
  | none => exact h
  | some sequence =>
    dsimp only
    split_ifs
    · exact h.map (fun task => by split_ifs <;> rfl) _
    · exact h

end

end PriorityTaskQueue.Numbered

/-! ### Waiting workers -/

namespace PriorityDispatcher

/-- What holds in every run: the tasks are numbered, there are no workers before the start, and the waiters are the
workers that wait in `pop`. -/
structure Invariant (s : PriorityDispatcher) : Prop where
  numbered : s.queue.Numbered
  idle : s.running = false → s.workers = []
  nodup : s.waiters.Nodup
  waits : ∀ worker, worker ∈ s.waiters ↔ s.workers[worker]? = some .waiting

theorem invariant_new (concurrency : Nat) (agingIntervalSeconds deadlineBoostWeight : Rat) :
    (new concurrency agingIntervalSeconds deadlineBoostWeight).Invariant where
  numbered := ⟨List.nodup_nil, fun _ h => by cases h⟩
  idle _ := rfl
  nodup := List.nodup_nil
  waits _ := iff_of_false (fun h => by cases h) fun h => by cases h

variable {s : PriorityDispatcher} {entry : LoopEntry}

theorem advance_of_stops {state : WorkerLoop} (h : s.stops? entry = some state) (worker : Nat)
    (clocks : Nat → Nat → Rat) : s.advance worker entry clocks = s.place worker state := by
  rw [advance, h]

theorem advance_of_goes_on (h : s.stops? entry = none) (worker : Nat) (clocks : Nat → Nat → Rat) :
    s.advance worker entry clocks =
      { s with queue := (s.queue.fetch s.paused s.queue.heap.length clocks).1 }.place worker
        (s.queue.fetch s.paused s.queue.heap.length clocks).2 := by
  rw [advance, h]

theorem Invariant.with_queue (h : s.Invariant) {queue : PriorityTaskQueue} (hqueue : queue.Numbered) :
    Invariant { s with queue } :=
  ⟨hqueue, h.idle, h.nodup, h.waits⟩

theorem Invariant.place (h : s.Invariant) {worker : Nat} {old : WorkerLoop} (hold : s.workers[worker]? = some old)
    (hne : old ≠ .waiting) (state : WorkerLoop) : (s.place worker state).Invariant := by
  have hlt : worker < s.workers.length := (List.getElem?_eq_some_iff.mp hold).1
  have hnew : worker ∉ s.waiters := by
    rwa [h.waits, hold, Option.some.injEq]
  refine ⟨h.numbered, fun hidle => ?_, ?_, fun other => ?_⟩
  · have hnil := h.idle hidle
    rw [hnil] at hlt
    exact absurd hlt (Nat.not_lt_zero _)
  · rw [PriorityDispatcher.place]
    split_ifs
    · exact h.nodup.append (List.nodup_singleton worker) (List.disjoint_singleton.mpr hnew)
    · exact h.nodup
  · rw [PriorityDispatcher.place]
    by_cases heq : worker = other
    · subst heq
      rw [List.getElem?_set_self hlt, Option.some.injEq]
      split_ifs with hwaiting
      · exact iff_of_true (List.mem_append_right _ List.mem_cons_self) hwaiting
      · exact iff_of_false hnew hwaiting
    · rw [List.getElem?_set_ne heq, ← h.waits]
      split_ifs
      · rw [List.mem_append, List.mem_singleton, or_iff_left (Ne.symm heq)]
      · exact Iff.rfl

theorem Invariant.advance (h : s.Invariant) {worker : Nat} {old : WorkerLoop} (hold : s.workers[worker]? = some old)
    (hne : old ≠ .waiting) (entry : LoopEntry) (clocks : Nat → Nat → Rat) :
    (s.advance worker entry clocks).Invariant := by
  cases hstops : s.stops? entry with
  | some state =>
    rw [advance_of_stops hstops]
    exact h.place hold hne state
  | none =>
    rw [advance_of_goes_on hstops]
    exact (h.with_queue (h.numbered.fetch ..)).place hold hne _

@[simp] theorem queue_notify (s : PriorityDispatcher) : s.notify.queue = s.queue := by
  rw [notify]
  cases s.waiters <;> rfl

theorem Invariant.notify (h : s.Invariant) : s.notify.Invariant := by
  rw [PriorityDispatcher.notify]
  cases hwaiters : s.waiters with
  | nil => exact h
  | cons worker rest =>
    have hwaits := fun w => hwaiters ▸ h.waits w
    have hnodup := List.nodup_cons.mp (hwaiters ▸ h.nodup)
    have hlt := (List.getElem?_eq_some_iff.mp ((hwaits worker).mp List.mem_cons_self)).1
    refine ⟨h.numbered, fun hidle => ?_, hnodup.2, fun other => ?_⟩
    · dsimp only
      rw [h.idle hidle, List.set_nil]
    · by_cases heq : worker = other
      · subst heq
        rw [List.getElem?_set_self hlt]
        exact iff_of_false hnodup.1 fun h => by cases h
      · rw [List.getElem?_set_ne heq, ← hwaits, List.mem_cons, or_iff_right (Ne.symm heq)]

theorem Invariant.map (h : s.Invariant) {f : WorkerLoop → WorkerLoop}
    (hf : ∀ state, f state = .waiting ↔ state = .waiting) {queue : PriorityTaskQueue} (hqueue : queue.Numbered)
    (paused : Bool) : Invariant { s with queue, paused, workers := s.workers.map f } := by
  refine ⟨hqueue, fun hidle => ?_, h.nodup, fun worker => ?_⟩
  · rw [h.idle hidle, List.map_nil]
  · rw [h.waits]
    rw [List.getElem?_map]
    cases s.workers[worker]? with
    | none => exact Iff.rfl
    | some state => rw [Option.map_some, Option.some.injEq, Option.some.injEq, hf]

theorem Invariant.finish (h : s.Invariant) {worker : Nat} {task : PrioritizedTask}
    (hold : s.workers[worker]? = some (.executing task)) (ending : TaskEnd) (clocks : Nat → Nat → Rat) :
    (s.finish worker task ending clocks).Invariant := by
  have hne : WorkerLoop.executing task ≠ .waiting := fun heq => by cases heq
  have hfailed : Invariant { s with queue := s.queue.countFailed } :=
    h.with_queue ⟨h.numbered.nodup, h.numbered.le⟩
  have hcompleted : Invariant { s with queue := s.queue.countCompleted } :=
    h.with_queue ⟨h.numbered.nodup, h.numbered.le⟩
  cases ending with
  | completed => exact hcompleted.advance hold hne .top clocks
  | failed raisable =>
    rw [PriorityDispatcher.finish]
    split_ifs
    · exact hfailed.place hold hne .sleeping
    · exact hfailed.advance hold hne .top clocks
  | interrupted => exact h.place hold hne .ended

/-- **The invariant is kept** by everything that happens. -/
theorem Invariant.step (h : s.Invariant) (event : DispatcherEvent) : (s.step event).Invariant := by
  cases event with
  | start =>
    rw [PriorityDispatcher.step]
    split_ifs with hrunning
    · exact h
    · have hworkers := h.idle (Bool.eq_false_iff.mpr hrunning)
      refine ⟨h.numbered, fun hidle => (by cases hidle), h.nodup, fun worker => ?_⟩
      rw [h.waits, hworkers]
      refine iff_of_false (fun hwaits => by cases hwaits) fun hwaits => ?_
      cases (List.mem_replicate.mp (List.mem_of_getElem? hwaits)).2
  | submit taskId priority deadline createdAt clock => exact (h.with_queue (h.numbered.push ..)).notify
  | run worker clocks =>
    rw [PriorityDispatcher.step]
    cases hentry : s.workers[worker]?.bind WorkerLoop.entry? with
    | none => exact h
    | some entry =>
      obtain ⟨state, hstate, hentry⟩ := Option.bind_eq_some_iff.mp hentry
      exact h.advance hstate (by rintro rfl; cases hentry) entry clocks
  | finish worker ending clocks =>
    rw [PriorityDispatcher.step]
    split
    · rename_i task hold
      exact h.finish hold ending clocks
    · exact h
  | pause => exact ⟨h.numbered, h.idle, h.nodup, h.waits⟩
  | resume =>
    refine h.map (fun state => ?_) h.numbered false
    cases state <;> simp [WorkerLoop.release]
  | cancelTask taskId => exact h.with_queue (h.numbered.cancelTask taskId)
  | flush => exact h.with_queue ⟨List.nodup_nil, fun _ htask => by cases htask⟩
  | abandon sequence =>
    refine h.map (fun state => ?_) (h.numbered.map (fun task => ?_) _) s.paused
    · cases state <;> simp [WorkerLoop.abandon]
    · rw [PrioritizedTask.abandon]
      split_ifs <;> rfl

end PriorityDispatcher

end MeshWeaver
