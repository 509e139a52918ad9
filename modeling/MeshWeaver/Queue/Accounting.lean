import MeshWeaver.Queue.Dispatcher

/-!
# Where every task is counted

A cancelled task stays in the queue, and is counted as cancelled again by the worker that pops it; a task whose
execution is interrupted is counted nowhere. Otherwise each task that was enqueued is queued, being executed, or
counted once.
-/

namespace MeshWeaver

open Lib PriorityTaskQueue

/-- The tasks that were counted, or are queued and not cancelled. -/
def PriorityTaskQueue.accounted (queue : PriorityTaskQueue) : Nat :=
  queue.metrics.totalCompleted + queue.metrics.totalFailed + queue.metrics.totalCancelled +
    queue.heap.countP fun task => !task.cancelled

namespace PriorityDispatcher

section Statements

variable (s : PriorityDispatcher)

def executing : Nat := s.workers.countP WorkerLoop.isExecuting

/-- Each task that was enqueued is in one place. -/
def Balanced : Prop := s.queue.metrics.totalEnqueued = s.queue.accounted + s.executing
deriving Decidable

/-- If a worker that goes on there gets to `pop`, the task in front is not cancelled. -/
def FrontLive (entry : LoopEntry) (clocks : Nat → Nat → Rat) : Prop :=
  s.stops? entry = none → ∀ task ∈ (s.queue.peek (clocks 0)).2, task.cancelled = false

/-- No worker takes a cancelled task, and no execution is interrupted. -/
def Clean : DispatcherEvent → Prop
  | .run worker clocks => ∀ entry ∈ s.workers[worker]?.bind WorkerLoop.entry?, s.FrontLive entry clocks
  | .finish worker ending clocks => ∀ task, s.workers[worker]? = some (.executing task) →
      ending ≠ .interrupted ∧
        (¬ (ending = .failed false ∧ task.future = some .pending) → s.FrontLive .top clocks)
  | _ => True

end Statements

end PriorityDispatcher

/-! ### The queue -/

namespace PriorityTaskQueue

variable {queue : PriorityTaskQueue}

theorem accounted_countCancelled (queue : PriorityTaskQueue) :
    queue.countCancelled.accounted = queue.accounted + 1 := by
  rw [accounted, accounted, countCancelled]
  dsimp only
  omega

theorem accounted_countCompleted (queue : PriorityTaskQueue) :
    queue.countCompleted.accounted = queue.accounted + 1 := by
  rw [accounted, accounted, countCompleted]
  dsimp only
  omega

theorem accounted_countFailed (queue : PriorityTaskQueue) : queue.countFailed.accounted = queue.accounted + 1 := by
  rw [accounted, accounted, countFailed]
  dsimp only
  omega

theorem accounted_pop {task : PrioritizedTask} {rest : PriorityTaskQueue} {promotions : Nat}
    (hperm : (task :: rest.heap).Perm queue.heap)
    (hmetrics : rest.metrics = { queue.metrics with totalAgedPromotions := promotions }) :
    rest.accounted + (!task.cancelled).toNat = queue.accounted := by
  have hcount := hperm.countP_eq fun task => !task.cancelled
  rw [accounted, accounted, ← hcount, hmetrics, List.countP_cons]
  cases task.cancelled <;> rfl

/-- **What a worker does in `pop`**: it counts the cancelled tasks that it meets, and it meets some just if there is
one in front. -/
theorem fetch_accounted (paused : Bool) {fuel : Nat} (hfuel : queue.heap.length ≤ fuel) (clocks : Nat → Nat → Rat) :
    ∃ again, (queue.fetch paused fuel clocks).1.metrics.totalEnqueued = queue.metrics.totalEnqueued ∧
      (queue.fetch paused fuel clocks).1.accounted + (queue.fetch paused fuel clocks).2.isExecuting.toNat =
        queue.accounted + again ∧ (again = 0 ↔ ∀ task ∈ (queue.peek (clocks 0)).2, task.cancelled = false) := by
  induction fuel generalizing queue clocks with
  | zero =>
    have hnil : queue.heap = [] := List.length_eq_zero_iff.mp (Nat.le_zero.mp hfuel)
    refine ⟨0, rfl, rfl, iff_of_true rfl fun task htask => ?_⟩
    rw [peek, if_pos hnil] at htask
    cases htask
  | succ fuel ih =>
    rw [fetch]
    rcases queue.pop_cases (clocks 0) with ⟨-, hpop, hpeek⟩ | ⟨task, rest, promotions, hpop, hpeek, hperm, -, hmetrics⟩
    · rw [hpop, hpeek]
      exact ⟨0, rfl, rfl, iff_of_true rfl fun task htask => by cases htask⟩
    · rw [hpop, hpeek]
      have htotal : rest.metrics.totalEnqueued = queue.metrics.totalEnqueued := by rw [hmetrics]
      have hrest := accounted_pop hperm hmetrics
      dsimp only
      cases hcancelled : task.cancelled with
      | true =>
        have hdead : ¬ ∀ other ∈ some task, other.cancelled = false := fun hlive => by
          rw [hlive task rfl] at hcancelled
          cases hcancelled
        have hagain : rest.countCancelled.accounted = queue.accounted + 1 := by
          rw [accounted_countCancelled, ← hrest, hcancelled]
          rfl
        cases paused with
        | true => exact ⟨1, htotal, hagain, iff_of_false Nat.one_ne_zero hdead⟩
        | false =>
          have hlength := hperm.length_eq
          have hfuel' : rest.countCancelled.heap.length ≤ fuel := by
            exact Nat.le_of_succ_le_succ (hlength.trans_le hfuel)
          obtain ⟨again, henqueued, hfetch, -⟩ := ih hfuel' fun i => clocks (i + 1)
          rw [hagain] at hfetch
          exact ⟨1 + again, henqueued.trans htotal, hfetch.trans (Nat.add_assoc ..),
            iff_of_false (by omega) hdead⟩
      | false =>
        rw [hcancelled] at hrest
        refine ⟨0, htotal, hrest, iff_of_true rfl fun other hother => ?_⟩
        cases hother
        exact hcancelled

theorem countP_cancel {tasks : List PrioritizedTask} (hnodup : (tasks.map PrioritizedTask.sequence).Nodup)
    {task : PrioritizedTask} (hmem : task ∈ tasks) (hlive : task.cancelled = false) :
    (tasks.map fun other => if other.sequence = task.sequence then other.cancel else other).countP
      (fun task => !task.cancelled) + 1 = tasks.countP fun task => !task.cancelled := by
  obtain ⟨before, after, rfl⟩ := List.append_of_mem hmem
  rw [List.map_append, List.map_cons] at hnodup
  have hsame : ∀ l : List PrioritizedTask, (∀ other ∈ l, other.sequence ≠ task.sequence) →
      l.map (fun other => if other.sequence = task.sequence then other.cancel else other) = l := fun l hl =>
    (List.map_congr_left fun other hother => if_neg (hl other hother)).trans (List.map_id l)
  have hbefore := hsame before fun other hother heq => by
    have hdisjoint := (List.nodup_append.mp hnodup).2.2 _ (List.mem_map_of_mem hother) _ List.mem_cons_self
    exact hdisjoint heq
  have hafter := hsame after fun other hother heq => by
    have hnew := (List.nodup_cons.mp (List.nodup_append.mp hnodup).2.1).1
    exact hnew (heq ▸ List.mem_map_of_mem hother)
  rw [List.map_append, List.map_cons, hbefore, hafter, if_pos rfl, List.countP_append, List.countP_append,
    List.countP_cons, List.countP_cons, PrioritizedTask.cancel, hlive]
  rfl

theorem cancelTask_accounted (h : queue.Numbered) (taskId : String) :
    (queue.cancelTask taskId).1.metrics.totalEnqueued = queue.metrics.totalEnqueued ∧
      (queue.cancelTask taskId).1.accounted = queue.accounted := by
  rw [cancelTask]
  cases queue.tasksById.get? taskId with
  | none => exact ⟨rfl, rfl⟩
  | some sequence =>
    dsimp only
    split_ifs with hany
    · obtain ⟨task, hmem, hfound⟩ := List.any_eq_true.mp hany
      obtain ⟨rfl, hlive⟩ := of_decide_eq_true hfound
      have hcount := countP_cancel h.nodup hmem hlive
      rw [accounted, accounted]
      dsimp only
      omega
    · exact ⟨rfl, rfl⟩

theorem flushQueue_accounted (queue : PriorityTaskQueue) : queue.flushQueue.1.accounted = queue.accounted := by
  have hflushed : (queue.heap.filter fun task => task.cancelled = false).length =
      queue.heap.countP fun task => !task.cancelled := by
    rw [List.countP_eq_length_filter]
    congr 2
    funext task
    cases task.cancelled <;> rfl
  rw [accounted, accounted, flushQueue]
  dsimp only
  rw [List.countP_nil]
  omega

theorem push_accounted (queue : PriorityTaskQueue) (task : PrioritizedTask) (h : task.cancelled = false)
    (clock : Nat → Rat) : (queue.push task clock).accounted = queue.accounted + 1 := by
  have hperm : (queue.push task clock).heap.Perm (queue.entered task :: queue.heap) := Heap.heappush_perm _ _ _
  have hlive : (queue.entered task).cancelled = false := h
  rw [accounted, hperm.countP_eq, List.countP_cons, hlive, accounted]
  rfl

end PriorityTaskQueue

namespace PriorityDispatcher

variable {s : PriorityDispatcher} {worker : Nat}

theorem executing_place {old : WorkerLoop} (hold : s.workers[worker]? = some old) (state : WorkerLoop) :
    (s.place worker state).executing + old.isExecuting.toNat = s.executing + state.isExecuting.toNat := by
  obtain ⟨hlt, rfl⟩ := List.getElem?_eq_some_iff.mp hold
  have hle : s.workers[worker].isExecuting.toNat ≤ s.executing := by
    cases hexecuting : s.workers[worker].isExecuting with
    | true => exact List.countP_pos_iff.mpr ⟨_, List.getElem_mem hlt, hexecuting⟩
    | false => exact Nat.zero_le _
  have hif : ∀ b : Bool, (if b = true then 1 else 0) = b.toNat := fun b => by cases b <;> rfl
  have hset : (s.place worker state).executing = _ := List.countP_set hlt
  rw [hset, hif, hif]
  change s.executing - _ + _ + _ = _
  omega

theorem balanced_advance_iff {old : WorkerLoop} (hold : s.workers[worker]? = some old)
    (hbalanced : s.queue.metrics.totalEnqueued + old.isExecuting.toNat = s.queue.accounted + s.executing)
    (entry : LoopEntry) (clocks : Nat → Nat → Rat) :
    (s.advance worker entry clocks).Balanced ↔ s.FrontLive entry clocks := by
  rw [FrontLive]
  cases hstops : s.stops? entry with
  | some state =>
    have hstate : state.isExecuting = false := by
      cases entry with
      | pop => cases hstops
      | top =>
        rw [stops?] at hstops
        split_ifs at hstops <;> cases hstops <;> rfl
    have hplace := executing_place hold state
    rw [hstate, Bool.toNat_false] at hplace
    rw [advance_of_stops hstops]
    refine iff_of_true ?_ fun h => by cases h
    change s.queue.metrics.totalEnqueued = s.queue.accounted + _
    omega
  | none =>
    obtain ⟨again, htotal, haccounted, hlive⟩ :=
      fetch_accounted s.paused (Nat.le_refl s.queue.heap.length) clocks
    rw [advance_of_goes_on hstops, imp_iff_right rfl, ← hlive]
    generalize s.queue.fetch s.paused s.queue.heap.length clocks = found at htotal haccounted
    have hplace := executing_place (s := { s with queue := found.1 }) hold found.2
    change _ = s.executing + _ at hplace
    change found.1.metrics.totalEnqueued = found.1.accounted + _ ↔ _
    omega

theorem balanced_counted_iff (hbalanced : s.Balanced) {task : PrioritizedTask}
    (hold : s.workers[worker]? = some (.executing task)) (queue : PriorityTaskQueue)
    (hheap : queue.heap = s.queue.heap) (htotal : queue.metrics.totalEnqueued = s.queue.metrics.totalEnqueued)
    (haccounted : queue.accounted = s.queue.accounted + 1) (clocks : Nat → Nat → Rat) :
    (advance { s with queue } worker .top clocks).Balanced ↔ s.FrontLive .top clocks := by
  have hlive : FrontLive { s with queue } .top clocks ↔ s.FrontLive .top clocks := by
    rw [FrontLive, peek_of_heap hheap]
    exact Iff.rfl
  refine (balanced_advance_iff (s := { s with queue }) hold ?_ .top clocks).trans hlive
  rw [Balanced] at hbalanced
  change queue.metrics.totalEnqueued + 1 = queue.accounted + s.executing
  omega

theorem balanced_finish_iff (hbalanced : s.Balanced) {task : PrioritizedTask}
    (hold : s.workers[worker]? = some (.executing task)) (ending : TaskEnd) (clocks : Nat → Nat → Rat) :
    (s.finish worker task ending clocks).Balanced ↔ ending ≠ .interrupted ∧
      (¬ (ending = .failed false ∧ task.future = some .pending) → s.FrontLive .top clocks) := by
  cases ending with
  | completed =>
    have hcounted := balanced_counted_iff hbalanced hold s.queue.countCompleted rfl rfl
      (accounted_countCompleted s.queue) clocks
    refine hcounted.trans ⟨fun h => ⟨TaskEnd.noConfusion, fun _ => h⟩, fun h => h.2 fun hsleeps => ?_⟩
    cases hsleeps.1
  | failed raisable =>
    have hcounted := balanced_counted_iff hbalanced hold s.queue.countFailed rfl rfl
      (accounted_countFailed s.queue) clocks
    have hne : TaskEnd.failed raisable ≠ .interrupted := TaskEnd.noConfusion
    rw [and_iff_right hne, TaskEnd.failed.injEq, finish]
    split_ifs with hsleeps
    · refine iff_of_true ?_ fun hgoes => absurd hsleeps hgoes
      have hplace := executing_place (s := { s with queue := s.queue.countFailed }) hold .sleeping
      have haccounted := accounted_countFailed s.queue
      rw [Balanced] at hbalanced
      change _ + 1 = s.executing + 0 at hplace
      change s.queue.metrics.totalEnqueued = s.queue.countFailed.accounted + _
      omega
    · rw [hcounted, imp_iff_right hsleeps]
  | interrupted =>
    refine iff_of_false (fun hafter => ?_) fun h => h.1 rfl
    have hplace := executing_place hold .ended
    rw [Balanced] at hbalanced
    change s.queue.metrics.totalEnqueued = s.queue.accounted + (s.place worker .ended).executing at hafter
    change _ + 1 = s.executing + 0 at hplace
    omega

theorem executing_map {f : WorkerLoop → WorkerLoop} (hf : ∀ state, (f state).isExecuting = state.isExecuting) :
    (s.workers.map f).countP WorkerLoop.isExecuting = s.executing := by
  rw [List.countP_map, executing]
  congr 1
  exact funext hf

theorem executing_notify (h : s.Invariant) : s.notify.executing = s.executing := by
  rw [notify]
  cases hwaiters : s.waiters with
  | nil => rfl
  | cons worker rest =>
    have hwaits := (h.waits worker).mp (hwaiters ▸ List.mem_cons_self)
    exact executing_place hwaits .notified

/-- **What an event does to the balance**: it is kept just if the event is clean. -/
theorem balanced_step_iff (h : s.Invariant) (hbalanced : s.Balanced) (event : DispatcherEvent) :
    (s.step event).Balanced ↔ s.Clean event := by
  cases event with
  | start =>
    refine iff_of_true ?_ trivial
    rw [step]
    split_ifs with hrunning
    · exact hbalanced
    · rw [Balanced, executing, h.idle (Bool.eq_false_iff.mpr hrunning)] at hbalanced
      rwa [Balanced, executing, List.countP_replicate]
  | submit taskId priority deadline createdAt clock =>
    refine iff_of_true ?_ trivial
    have haccounted := s.queue.push_accounted
      { taskId, basePriority := priority, createdAt, deadline, future := some .pending } rfl clock
    rw [step, submit, Balanced, executing_notify (h.with_queue (h.numbered.push ..)), queue_notify, haccounted]
    rw [Balanced] at hbalanced
    change s.queue.metrics.totalEnqueued + 1 = s.queue.accounted + 1 + s.executing
    omega
  | run worker clocks =>
    rw [step, Clean]
    cases hentry : s.workers[worker]?.bind WorkerLoop.entry? with
    | none => exact iff_of_true hbalanced fun entry hentry => by cases hentry
    | some entry =>
      obtain ⟨state, hstate, hstate'⟩ := Option.bind_eq_some_iff.mp hentry
      have hidle : state.isExecuting = false := by cases state <;> first | rfl | cases hstate'
      refine (balanced_advance_iff hstate (by rw [hidle]; exact hbalanced) entry clocks).trans ?_
      exact ⟨fun h other hother => by cases hother; exact h, fun h => h entry rfl⟩
  | finish worker ending clocks =>
    rw [step, Clean]
    split
    · rename_i task hold
      rw [balanced_finish_iff hbalanced hold ending clocks]
      exact ⟨fun h other hother => by cases hold.symm.trans hother; exact h, fun h => h task hold⟩
    · rename_i hnot
      exact iff_of_true hbalanced fun task hold => absurd hold (hnot task)
  | pause => exact iff_of_true hbalanced trivial
  | resume =>
    refine iff_of_true ?_ trivial
    have hsame := executing_map (s := s) (f := WorkerLoop.release) fun state => by cases state <;> rfl
    exact hbalanced.trans (congrArg _ hsame.symm)
  | cancelTask taskId =>
    obtain ⟨htotal, haccounted⟩ := cancelTask_accounted h.numbered taskId
    exact iff_of_true (htotal.trans (hbalanced.trans (congrArg (· + s.executing) haccounted.symm))) trivial
  | flush =>
    have haccounted := flushQueue_accounted s.queue
    exact iff_of_true (hbalanced.trans (congrArg (· + s.executing) haccounted.symm)) trivial
  | abandon sequence =>
    refine iff_of_true ?_ trivial
    have hsame := executing_map (s := s) (f := WorkerLoop.abandon sequence) fun state => by cases state <;> rfl
    have hlive : (s.queue.heap.map (PrioritizedTask.abandon sequence)).countP (fun task => !task.cancelled) =
        s.queue.heap.countP fun task => !task.cancelled := by
      rw [List.countP_map]
      congr 1
      funext task
      rw [Function.comp_apply, PrioritizedTask.abandon]
      split_ifs <;> rfl
    rw [Balanced, accounted, ← hlive, ← hsame] at hbalanced
    exact hbalanced

/-- **The balance of every run.** After each event all tasks are accounted for, just if no worker takes a cancelled
task and no execution is interrupted. -/
theorem balanced_iff_clean (concurrency : Nat) (agingIntervalSeconds deadlineBoostWeight : Rat)
    (events : List DispatcherEvent) :
    (∀ n, (run step (new concurrency agingIntervalSeconds deadlineBoostWeight) (events.take n)).Balanced) ↔
      Along step Clean (new concurrency agingIntervalSeconds deadlineBoostWeight) events := by
  have hstart : (new concurrency agingIntervalSeconds deadlineBoostWeight).Balanced := rfl
  have hinvariant := invariant_new concurrency agingIntervalSeconds deadlineBoostWeight
  rw [Lib.forall_run_take_iff, and_iff_right hstart]
  refine Along.congr_of_invariant (I := fun s : PriorityDispatcher => s.Invariant ∧ s.Balanced)
    (fun s event hs _ => ?_) ⟨hinvariant, hstart⟩ (Along.of_forall (fun _ _ _ => trivial) _)
  exact ⟨balanced_step_iff hs.1 hs.2 event, fun hafter => ⟨hs.1.step event, hafter⟩⟩

def cancelledThenTaken : List DispatcherEvent :=
  [.start, .submit "report" .normal none 0 fun _ => 0, .cancelTask "report", .run 0 fun _ _ => 1]

/-- The task is counted as cancelled twice. -/
theorem not_balanced_cancelledThenTaken :
    (run step (new 1 2 2) cancelledThenTaken).queue.metrics.totalEnqueued = 1 ∧
      (run step (new 1 2 2) cancelledThenTaken).queue.metrics.totalCancelled = 2 ∧
      ¬ ∀ n, (run step (new 1 2 2) (cancelledThenTaken.take n)).Balanced := by
  refine ⟨by decide +kernel, by decide +kernel, fun h => ?_⟩
  have hend := h 4
  revert hend
  decide +kernel

end PriorityDispatcher

end MeshWeaver
