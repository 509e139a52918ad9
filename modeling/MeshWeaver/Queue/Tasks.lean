import Mathlib.Algebra.Order.Ring.Rat
import Mathlib.Data.List.Sort
import MeshWeaver.Lib.Dict
import MeshWeaver.Lib.Heap

/-!
# The priority queue

A `PriorityTaskQueue` is a heap of tasks whose order changes with time: a task gains priority as it waits and as its
deadline comes near. Every comparison reads the clock; a clock gives the readings of one call in their order. A task
is known by its sequence number: that is what `_tasks_by_id` has for an object.
-/

namespace MeshWeaver

open Lib

inductive TaskPriority where
  | critical | high | normal | low | background
deriving DecidableEq, Repr

namespace TaskPriority

def value : TaskPriority → Nat
  | .critical => 0
  | .high => 1
  | .normal => 2
  | .low => 3
  | .background => 4

def name : TaskPriority → String
  | .critical => "CRITICAL"
  | .high => "HIGH"
  | .normal => "NORMAL"
  | .low => "LOW"
  | .background => "BACKGROUND"

end TaskPriority

/-- `calculate_deadline_urgency(deadline, current_time, deadline_boost_weight)`, with its default for the
critical threshold. -/
def calculateDeadlineUrgency (deadline : Option Rat) (currentTime deadlineBoostWeight : Rat) : Rat :=
  let criticalThresholdSeconds : Rat := 5
  match deadline with
  | none => 0
  | some deadline =>
    let remaining := deadline - currentTime
    if remaining ≤ 0 then deadlineBoostWeight * 2
    else if remaining < criticalThresholdSeconds then
      deadlineBoostWeight * ((criticalThresholdSeconds - remaining) / criticalThresholdSeconds)
    else 0

inductive TaskFuture where
  | pending | cancelled | result | exception
deriving DecidableEq, Repr

/-- `future.cancel()`, if there is a future that is not done. -/
def cancelFuture (future : Option TaskFuture) : Option TaskFuture :=
  if future = some .pending then some .cancelled else future

structure PrioritizedTask where
  taskId : String
  basePriority : TaskPriority := .normal
  createdAt : Rat
  deadline : Option Rat := none
  future : Option TaskFuture := none
  sequence : Nat := 0
  cancelled : Bool := false
  agingIntervalSeconds : Rat := 2
  deadlineBoostWeight : Rat := 2
deriving DecidableEq

namespace PrioritizedTask

variable (task : PrioritizedTask)

def ageSeconds (now : Rat) : Rat := max 0 (now - task.createdAt)

def calculateEffectivePriority (agingIntervalSeconds deadlineBoostWeight currentTime : Rat) : Rat :=
  let score : Rat := task.basePriority.value
  let score :=
    if agingIntervalSeconds > 0 then score - max 0 (currentTime - task.createdAt) / agingIntervalSeconds else score
  if task.deadline.isSome then score - calculateDeadlineUrgency task.deadline currentTime deadlineBoostWeight
  else score

/-- `calculate_effective_priority(current_time=now)` -/
def effectivePriority (now : Rat) : Rat :=
  task.calculateEffectivePriority task.agingIntervalSeconds task.deadlineBoostWeight now

def lt (other : PrioritizedTask) (now : Rat) : Bool :=
  if |task.effectivePriority now - other.effectivePriority now| > 1 / 10000 then
    task.effectivePriority now < other.effectivePriority now
  else task.sequence < other.sequence

def cancel : PrioritizedTask := { task with cancelled := true, future := cancelFuture task.future }

end PrioritizedTask

/-- `PriorityMetrics`, without what nothing here updates or reads. -/
structure PriorityMetrics where
  totalEnqueued : Nat := 0
  totalCompleted : Nat := 0
  totalFailed : Nat := 0
  totalCancelled : Nat := 0
  totalAgedPromotions : Nat := 0
  tasksByPriority : TaskPriority → Nat := fun _ => 0

structure PriorityTaskQueue where
  agingIntervalSeconds : Rat := 2
  deadlineBoostWeight : Rat := 2
  heap : List PrioritizedTask := []
  sequenceCounter : Nat := 0
  tasksById : Dict String Nat := Dict.empty
  metrics : PriorityMetrics := {}

/-- An item of `get_effective_queue_snapshot()`; its numbers are not rounded here. -/
structure SnapshotItem where
  taskId : String
  basePriority : String
  effectivePriority : Rat
  waitTimeSeconds : Rat
  deadline : Option Rat
  cancelled : Bool
deriving DecidableEq

namespace PriorityTaskQueue

variable (queue : PriorityTaskQueue)

def entered (task : PrioritizedTask) : PrioritizedTask :=
  { task with
    sequence := queue.sequenceCounter + 1, agingIntervalSeconds := queue.agingIntervalSeconds
    deadlineBoostWeight := queue.deadlineBoostWeight }

def push (task : PrioritizedTask) (clock : Nat → Rat) : PriorityTaskQueue :=
  { queue with
    sequenceCounter := queue.sequenceCounter + 1
    heap := (Heap.heappush (fun i x y => x.lt y (clock i)) (queue.heap, 0) (queue.entered task)).1
    tasksById := queue.tasksById.insert task.taskId (queue.sequenceCounter + 1)
    metrics :=
      { queue.metrics with
        totalEnqueued := queue.metrics.totalEnqueued + 1
        tasksByPriority := fun p =>
          queue.metrics.tasksByPriority p + if p = task.basePriority then 1 else 0 } }

/-- The tasks of the heap that have gained priority, when each of them reads the clock. -/
def promoted (clock : Nat → Rat) : List (PrioritizedTask × Nat) :=
  queue.heap.zipIdx.filter fun (task, i) =>
    task.calculateEffectivePriority queue.agingIntervalSeconds queue.deadlineBoostWeight (clock i) <
      task.basePriority.value

/-- `_reheapify()`, with the number of readings of the clock. -/
def reheapify (clock : Nat → Rat) : PriorityTaskQueue × Nat :=
  let (heap, read) := Heap.heapify (fun i x y => x.lt y (clock i)) (queue.heap, queue.heap.length)
  let metrics :=
    { queue.metrics with
      totalAgedPromotions := queue.metrics.totalAgedPromotions + (queue.promoted clock).length }
  ({ queue with heap, metrics }, read)

/-- `pop()`, once there are tasks. -/
def pop (clock : Nat → Rat) : Option (PrioritizedTask × PriorityTaskQueue) :=
  let (queue, read) := queue.reheapify clock
  (Heap.heappop (fun i x y => x.lt y (clock i)) (queue.heap, read)).map fun (task, heap, _) =>
    (task, { queue with heap, tasksById := queue.tasksById.erase task.taskId })

def peek (clock : Nat → Rat) : PriorityTaskQueue × Option PrioritizedTask :=
  if queue.heap = [] then (queue, none) else ((queue.reheapify clock).1, (queue.reheapify clock).1.heap[0]?)

def cancelTask (taskId : String) : PriorityTaskQueue × Bool :=
  match queue.tasksById.get? taskId with
  | none => (queue, false)
  | some sequence =>
    if queue.heap.any fun task => task.sequence = sequence ∧ task.cancelled = false then
      ({ queue with
          heap := queue.heap.map fun task => if task.sequence = sequence then task.cancel else task
          metrics := { queue.metrics with totalCancelled := queue.metrics.totalCancelled + 1 } }, true)
    else (queue, false)

def flushQueue : PriorityTaskQueue × Nat :=
  let flushedCount := (queue.heap.filter fun task => task.cancelled = false).length
  ({ queue with
      heap := [], tasksById := Dict.empty
      metrics := { queue.metrics with totalCancelled := queue.metrics.totalCancelled + flushedCount } }, flushedCount)

/-- `sorted(self._heap)` at one instant; sorting is stable. -/
def sortedTasks (now : Rat) : List PrioritizedTask :=
  queue.heap.insertionSort fun x y => y.lt x now = false

def snapshotItem (now : Rat) (task : PrioritizedTask) : SnapshotItem :=
  { taskId := task.taskId, basePriority := task.basePriority.name
    effectivePriority := task.calculateEffectivePriority queue.agingIntervalSeconds queue.deadlineBoostWeight now
    waitTimeSeconds := task.ageSeconds now, deadline := task.deadline, cancelled := task.cancelled }

def getEffectiveQueueSnapshot (now : Rat) : PriorityTaskQueue × List SnapshotItem :=
  let queue := (queue.reheapify fun _ => now).1
  (queue, (queue.sortedTasks now).map (queue.snapshotItem now))

variable (clock : Nat → Rat)

theorem reheapify_perm : (queue.reheapify clock).1.heap.Perm queue.heap :=
  Heap.heapify_perm _ _

theorem peek_of_heap {queue queue' : PriorityTaskQueue} (h : queue.heap = queue'.heap) (clock : Nat → Rat) :
    (queue.peek clock).2 = (queue'.peek clock).2 := by
  rw [peek, peek, reheapify, reheapify, h]
  split_ifs <;> rfl

/-- **What `pop` returns** is the task that comes first in the heap that is made anew. -/
theorem pop_spec (h : queue.heap ≠ []) :
    ∃ task heap, queue.pop clock =
        some (task, { (queue.reheapify clock).1 with heap, tasksById := queue.tasksById.erase task.taskId }) ∧
      (queue.reheapify clock).1.heap[0]? = some task ∧ (task :: heap).Perm queue.heap := by
  have hperm := queue.reheapify_perm clock
  rw [pop]
  generalize hfound : queue.reheapify clock = found at hperm
  have hids : found.1.tasksById = queue.tasksById := by rw [← hfound]; rfl
  obtain ⟨found, read⟩ := found
  cases hheap : found.heap with
  | nil =>
    rw [hheap] at hperm
    exact absurd hperm.nil_eq.symm h
  | cons task others =>
    obtain ⟨rest, hpop, hrest⟩ := Heap.heappop_cons (fun i x y => x.lt y (clock i)) task others read
    refine ⟨task, rest.1, ?_, rfl, ?_⟩
    · dsimp only at hids ⊢
      rw [hheap, hpop, hids]
      rfl
    · rw [hheap] at hperm
      exact (hrest.cons task).trans hperm

/-- **`pop` inverted**: there is no task, or the first one is taken out. -/
theorem pop_cases :
    queue.heap = [] ∧ queue.pop clock = none ∧ (queue.peek clock).2 = none ∨
      ∃ task rest promotions, queue.pop clock = some (task, rest) ∧ (queue.peek clock).2 = some task ∧
        (task :: rest.heap).Perm queue.heap ∧ rest.sequenceCounter = queue.sequenceCounter ∧
        rest.metrics = { queue.metrics with totalAgedPromotions := promotions } := by
  by_cases h : queue.heap = []
  · refine Or.inl ⟨h, ?_, by rw [peek, if_pos h]⟩
    rw [pop, reheapify, h]
    rfl
  · obtain ⟨task, heap, hpop, hfirst, hperm⟩ := queue.pop_spec clock h
    refine Or.inr ⟨task, _, _, hpop, ?_, hperm, rfl, rfl⟩
    rwa [peek, if_neg h]

end PriorityTaskQueue

end MeshWeaver
