import MeshWeaver.Queue.Dispatcher

/-!
# Nothing starts while there is a pause

A worker looks at the pause event before it asks for a task, and then does not look again: if it waits in `pop` when
the pause begins, the next task that is submitted goes to it. So does a task that is queued already, if the worker
was notified of one or released from the pause before and has not run since. A pause holds if there is no such
worker when it begins.
-/

namespace MeshWeaver

open Lib WorkerLoop

/-- The worker has passed the pause event and has no task yet. -/
def WorkerLoop.passed : WorkerLoop → Bool
  | .released => true
  | .waiting => true
  | .notified => true
  | _ => false

def DispatcherEvent.switches : DispatcherEvent → Bool
  | .pause => true
  | .resume => true
  | _ => false

namespace PriorityDispatcher

section Statements

variable (s : PriorityDispatcher)

/-- A task begins execution with the event: a worker that goes on has one afterwards. -/
def begins (event : DispatcherEvent) : Bool :=
  match event with
  | .run worker _ =>
    (s.workers[worker]?.bind entry?).isSome && (s.step event).workers[worker]?.any isExecuting
  | .finish worker _ _ =>
    s.workers[worker]?.any isExecuting && (s.step event).workers[worker]?.any isExecuting
  | _ => false

/-- No task begins execution while there is a pause. -/
def StartsNothing (event : DispatcherEvent) : Prop := s.paused = true → s.begins event = false
deriving Decidable

/-- When a pause begins, no worker has passed the pause event without getting a task. -/
def Settled (event : DispatcherEvent) : Prop := event = .pause → ∀ state ∈ s.workers, state.passed = false

/-- As long as there is a pause, all workers without a task are held up before `pop`. -/
def Quiet : Prop := s.paused = true → ∀ state ∈ s.workers, state.passed = false

end Statements

variable {s : PriorityDispatcher} {state : WorkerLoop}

/-! ### A pause that holds -/

/-- A worker is held up: it is neither past the pause event nor busy. -/
def HeldUp (state : WorkerLoop) : Prop := state.passed = false ∧ state.isExecuting = false

theorem advance_top_of_paused (h : s.paused = true) (worker : Nat) (clocks : Nat → Nat → Rat) :
    ∃ state, s.advance worker .top clocks = s.place worker state ∧ HeldUp state := by
  have hstops : ∃ state, s.stops? .top = some state ∧ HeldUp state := by
    rw [stops?, if_pos h]
    split_ifs
    · exact ⟨.ended, rfl, rfl, rfl⟩
    · exact ⟨.held, rfl, rfl, rfl⟩
  obtain ⟨state, hstops, hheld⟩ := hstops
  exact ⟨state, advance_of_stops hstops worker clocks, hheld⟩

theorem finish_of_paused (h : s.paused = true) (worker : Nat) (task : PrioritizedTask) (ending : TaskEnd)
    (clocks : Nat → Nat → Rat) :
    ∃ queue state, s.finish worker task ending clocks = place { s with queue } worker state ∧ HeldUp state := by
  cases ending with
  | completed =>
    obtain ⟨state, hadvance, hheld⟩ :=
      advance_top_of_paused (s := { s with queue := s.queue.countCompleted }) h worker clocks
    exact ⟨_, state, hadvance, hheld⟩
  | failed raisable =>
    rw [finish]
    split_ifs
    · exact ⟨_, .sleeping, rfl, rfl, rfl⟩
    · obtain ⟨state, hadvance, hheld⟩ :=
        advance_top_of_paused (s := { s with queue := s.queue.countFailed }) h worker clocks
      exact ⟨_, state, hadvance, hheld⟩
  | interrupted => exact ⟨s.queue, .ended, rfl, rfl, rfl⟩

theorem entry_eq_top {entry : LoopEntry} (h : state.passed = false)
    (hentry : state.entry? = some entry) : entry = .top := by
  cases state with
  | starting | sleeping => cases hentry; rfl
  | released | waiting | notified => cases h
  | held | executing task | ended => cases hentry

theorem quiet_place (hquiet : ∀ state ∈ s.workers, state.passed = false) (worker : Nat) (hheld : HeldUp state) :
    (∀ other ∈ (s.place worker state).workers, other.passed = false) ∧
      (s.place worker state).workers[worker]?.any isExecuting = false := by
  constructor
  · intro other hother
    rcases List.mem_or_eq_of_mem_set hother with hold | hnew
    · exact hquiet other hold
    · exact hnew ▸ hheld.1
  · change (s.workers.set worker state)[worker]?.any _ = false
    rw [List.getElem?_set, if_pos rfl]
    split_ifs
    · exact hheld.2
    · rfl

/-- **One event in a pause**: nothing starts, and all workers stay held up. -/
theorem step_of_paused (h : s.Invariant) (hpaused : s.paused = true)
    (hquiet : ∀ state ∈ s.workers, state.passed = false) (event : DispatcherEvent) :
    s.begins event = false ∧
      ((s.step event).paused = true → ∀ state ∈ (s.step event).workers, state.passed = false) := by
  cases event with
  | start =>
    refine ⟨rfl, fun _ => ?_⟩
    rw [step]
    split_ifs
    · exact hquiet
    · intro state hstate
      rw [(List.mem_replicate.mp hstate).2]
      rfl
  | submit taskId priority deadline createdAt clock =>
    refine ⟨rfl, fun _ => ?_⟩
    have hwaiters : s.waiters = [] := List.eq_nil_iff_forall_not_mem.mpr fun worker hworker => by
      have hwaits := (h.waits worker).mp hworker
      cases hquiet _ (List.mem_of_getElem? hwaits)
    rw [step, submit, notify]
    rwa [hwaiters]
  | run worker clocks =>
    rw [begins, step]
    cases hentry : s.workers[worker]?.bind entry? with
    | none => exact ⟨rfl, fun _ => hquiet⟩
    | some entry =>
      obtain ⟨state, hstate, hentry⟩ := Option.bind_eq_some_iff.mp hentry
      obtain rfl := entry_eq_top (hquiet state (List.mem_of_getElem? hstate)) hentry
      obtain ⟨state, hadvance, hheld⟩ := advance_top_of_paused hpaused worker clocks
      obtain ⟨hpassed, hidle⟩ := quiet_place hquiet worker hheld
      dsimp only
      rw [hadvance, hidle]
      exact ⟨rfl, fun _ => hpassed⟩
  | finish worker ending clocks =>
    rw [begins, step]
    split
    · rename_i task hold
      obtain ⟨queue, state, hfinish, hheld⟩ := finish_of_paused hpaused worker task ending clocks
      obtain ⟨hpassed, hidle⟩ := quiet_place (s := { s with queue }) hquiet worker hheld
      rw [hfinish, hidle, Bool.and_false]
      exact ⟨rfl, fun _ => hpassed⟩
    · rename_i hnot
      have hidle : s.workers[worker]?.any isExecuting = false := by
        cases hget : s.workers[worker]? with
        | none => rfl
        | some state =>
          cases state with
          | executing task => exact absurd hget (hnot task)
          | _ => rfl
      rw [hidle]
      exact ⟨rfl, fun _ => hquiet⟩
  | pause => exact ⟨rfl, fun _ => hquiet⟩
  | resume => exact ⟨rfl, fun hafter => by cases hafter⟩
  | cancelTask taskId | flush => exact ⟨rfl, fun _ => hquiet⟩
  | abandon sequence =>
    refine ⟨rfl, fun _ state hstate => ?_⟩
    obtain ⟨old, hold, rfl⟩ := List.mem_map.mp hstate
    have hpassed := hquiet old hold
    cases old <;> first | rfl | exact hpassed

theorem paused_advance (s : PriorityDispatcher) (worker : Nat) (entry : LoopEntry) (clocks : Nat → Nat → Rat) :
    (s.advance worker entry clocks).paused = s.paused := by
  rw [advance]
  cases s.stops? entry <;> rfl

theorem paused_step {event : DispatcherEvent} (h : event.switches = false) : (s.step event).paused = s.paused := by
  cases event with
  | start =>
    rw [step]
    split_ifs <;> rfl
  | submit taskId priority deadline createdAt clock =>
    rw [step, submit, notify]
    split <;> rfl
  | run worker clocks =>
    rw [step]
    split
    · rfl
    · exact paused_advance ..
  | finish worker ending clocks =>
    rw [step]
    split
    · cases ending with
      | completed => exact paused_advance ..
      | failed raisable =>
        rw [finish]
        split_ifs
        · rfl
        · exact paused_advance ..
      | interrupted => rfl
    · rfl
  | pause | resume => cases h
  | cancelTask taskId | flush | abandon sequence => rfl

/-- **One event**: nothing starts in a pause, and a pause that began well holds on. -/
theorem Quiet.step (h : s.Invariant) (hquiet : s.Quiet) {event : DispatcherEvent} (hsettled : s.Settled event) :
    s.StartsNothing event ∧ (s.step event).Quiet := by
  by_cases hpaused : s.paused = true
  · obtain ⟨hbegins, hafter⟩ := step_of_paused h hpaused (hquiet hpaused) event
    exact ⟨fun _ => hbegins, hafter⟩
  · refine ⟨fun hpaused' => absurd hpaused' hpaused, fun hafter => ?_⟩
    by_cases hswitches : event.switches = true
    · cases event with
      | pause => exact hsettled rfl
      | resume => cases hafter
      | _ => cases hswitches
    · rw [paused_step (Bool.eq_false_iff.mpr hswitches)] at hafter
      exact absurd hafter hpaused

/-! ### A pause that does not hold -/

theorem fetch_single {queue : PriorityTaskQueue} {task : PrioritizedTask} (hheap : queue.heap = [task])
    (hlive : task.cancelled = false) (paused : Bool) (clocks : Nat → Nat → Rat) :
    (queue.fetch paused 1 clocks).2 = .executing task := by
  rw [PriorityTaskQueue.fetch]
  rcases queue.pop_cases (clocks 0) with ⟨hnil, -⟩ | ⟨found, rest, promotions, hpop, -, hperm, -⟩
  · rw [hnil] at hheap
    cases hheap
  · rw [hheap] at hperm
    obtain ⟨rfl, -⟩ := List.cons.inj (List.perm_singleton.mp hperm)
    rw [hpop]
    dsimp only
    rw [hlive]
    rfl

theorem begins_of_single {worker : Nat} (hstate : s.workers[worker]? = some state)
    (hentry : state.entry? = some .pop) {task : PrioritizedTask} (hheap : s.queue.heap = [task])
    (hlive : task.cancelled = false) (clocks : Nat → Nat → Rat) : s.begins (.run worker clocks) = true := by
  have hentry : s.workers[worker]?.bind entry? = some .pop := by rw [hstate]; exact hentry
  have hlt := (List.getElem?_eq_some_iff.mp hstate).1
  have hfetch := fetch_single hheap hlive s.paused clocks
  have hlength : s.queue.heap.length = 1 := by rw [hheap]; rfl
  rw [begins, step, hentry]
  dsimp only
  rw [advance_of_goes_on rfl, hlength, hfetch]
  change (true && (s.workers.set worker (.executing task))[worker]?.any _) = true
  rw [List.getElem?_set_self hlt]
  rfl

theorem ready_after_notify (h : s.Invariant) (hpassed : ∃ state ∈ s.workers, state.passed = true) :
    ∃ (worker : Nat) (state : WorkerLoop), s.notify.workers[worker]? = some state ∧ state.entry? = some .pop := by
  rw [notify]
  cases hwaiters : s.waiters with
  | cons worker rest =>
    have hwaits := (h.waits worker).mp (hwaiters ▸ List.mem_cons_self)
    exact ⟨worker, .notified, List.getElem?_set_self (List.getElem?_eq_some_iff.mp hwaits).1, rfl⟩
  | nil =>
    obtain ⟨state, hmem, hpassed⟩ := hpassed
    obtain ⟨worker, hstate⟩ := List.mem_iff_getElem?.mp hmem
    refine ⟨worker, state, hstate, ?_⟩
    cases state with
    | released | notified => rfl
    | waiting =>
      have hmem := (h.waits worker).mpr hstate
      rw [hwaiters] at hmem
      cases hmem
    | _ => cases hpassed

theorem begins_of_passed (h : s.Invariant) (hpassed : ∃ state ∈ s.workers, state.passed = true) :
    ∃ worker, ((s.step .flush).step (.submit "late" .normal none 0 fun _ => 0)).begins
      (.run worker fun _ _ => 0) = true := by
  let task : PrioritizedTask := { taskId := "late", createdAt := 0, future := some .pending }
  let queue := s.queue.flushQueue.1.push task fun _ => 0
  have hflushed : s.queue.flushQueue.1.Numbered := ⟨List.nodup_nil, fun _ htask => by cases htask⟩
  have hheap : queue.heap = [s.queue.flushQueue.1.entered task] := rfl
  obtain ⟨worker, state, hstate, hentry⟩ := ready_after_notify (h.with_queue (hflushed.push task _)) hpassed
  have hlive : (s.queue.flushQueue.1.entered task).cancelled = false := rfl
  refine ⟨worker, begins_of_single hstate hentry ?_ hlive _⟩
  rwa [queue_notify]

theorem along_settled_of_starts_nothing (h : s.Invariant) {events : List DispatcherEvent}
    (hnothing : ∀ n more, (∀ event ∈ more, event.switches = false) →
      Along step StartsNothing s (events.take n ++ more)) : Along step Settled s events := by
  induction events generalizing s with
  | nil => trivial
  | cons event events ih =>
    refine ⟨?_, ih (h.step event) fun n more hmore => (hnothing (n + 1) more hmore).2⟩
    rintro rfl state hstate
    by_contra hpassed
    rw [Bool.not_eq_false] at hpassed
    obtain ⟨worker, hbegins⟩ := begins_of_passed (h.step .pause) ⟨state, hstate, hpassed⟩
    have hrun := hnothing 1 [.flush, .submit "late" .normal none 0 fun _ => 0, .run worker fun _ _ => 0]
      (by simp [DispatcherEvent.switches])
    have hstill : (((s.step .pause).step .flush).step (.submit "late" .normal none 0 fun _ => 0)).paused = true :=
      paused_step rfl
    have hbegins' := hrun.2.2.2.1 hstill
    rw [hbegins] at hbegins'
    cases hbegins'

/-- **When a pause holds.** In all continuations of a run without another pause or the end of one nothing starts
while there is a pause, just if at each pause no worker has passed the pause event without getting a task. -/
theorem starts_nothing_iff (concurrency : Nat) (agingIntervalSeconds deadlineBoostWeight : Rat)
    (events : List DispatcherEvent) :
    (∀ n more, (∀ event ∈ more, event.switches = false) →
      Along step StartsNothing (new concurrency agingIntervalSeconds deadlineBoostWeight) (events.take n ++ more)) ↔
    Along step Settled (new concurrency agingIntervalSeconds deadlineBoostWeight) events := by
  have hinvariant := invariant_new concurrency agingIntervalSeconds deadlineBoostWeight
  have hquiet : (new concurrency agingIntervalSeconds deadlineBoostWeight).Quiet := fun hpaused => by cases hpaused
  refine ⟨along_settled_of_starts_nothing hinvariant, fun hsettled n more hmore => ?_⟩
  have hmore : Along step Settled
      (run step (new concurrency agingIntervalSeconds deadlineBoostWeight) (events.take n)) more :=
    Along.of_forall (fun event hevent _ hpause => by
      have hswitches := hmore event hevent
      rw [hpause] at hswitches
      cases hswitches) _
  have hbefore : Along step Settled (new concurrency agingIntervalSeconds deadlineBoostWeight) (events.take n) := by
    rw [← List.take_append_drop n events] at hsettled
    exact hsettled.of_append_left
  exact (hbefore.append hmore).of_invariant (I := fun s : PriorityDispatcher => s.Invariant ∧ s.Quiet)
    (fun s event hs hsettled => ⟨(hs.2.step hs.1 hsettled).1, hs.1.step event, (hs.2.step hs.1 hsettled).2⟩)
    ⟨hinvariant, hquiet⟩

def pausedWhileWaiting : List DispatcherEvent :=
  [.start, .run 0 fun _ _ => 0, .pause, .submit "report" .normal none 1 fun _ => 1, .run 0 fun _ _ => 2]

/-- The worker begins the task in the pause. -/
theorem starts_while_paused :
    ¬ Along step StartsNothing (new 1 2 2) pausedWhileWaiting ∧
      (run step (new 1 2 2) pausedWhileWaiting).paused = true := by
  decide +kernel

end PriorityDispatcher

end MeshWeaver
