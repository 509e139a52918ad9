import MeshWeaver.Scheduler.Dispatch

/-!
# One attempt, one verdict

A success is recorded as soon as a worker has answered, and then the result is unpacked. If unpacking raises, its
handler records once more. So an attempt has exactly its one verdict if the worker's answer is a result that can be
decoded; if the transport fails, it has one if the policy lets failures be recorded at all.
-/

namespace MeshWeaver

open Lib CircuitBreaker CircuitBreakerRegistry

/-- What should be recorded of an attempt: whether the worker has answered. -/
def verdict (sent : Except TaskError TaskResult) : Outcome :=
  match sent with
  | .ok _ => .success
  | .error _ => .failure

def TaskError.isRemote : TaskError → Bool
  | .remoteExecutionError .. => true
  | _ => false

section Settling

variable {α : Type} {loads : List UInt8 → Except TaskError α} {registry : CircuitBreakerRegistry} {trip : Bool}
  {nodeId : String} {clock : Nat → Rat} {recorded : List Outcome}

/-- What the handlers record of what the `try` returns or raises. -/
def handled (trip : Bool) : Except TaskError (Option α) → List Outcome
  | .ok _ => []
  | .error error => if error.isRemote then [.success] else if trip then [.failure] else []

/-- An answer with a result that can be decoded, or that cannot where failures are not recorded; or a failure of
the transport where they are. -/
def Fits (loads : List UInt8 → Except TaskError α) (trip : Bool) (sent : Except TaskError TaskResult) : Prop :=
  match sent with
  | .ok result => ∀ error, unpackResult loads result = .error error → error.isRemote = false ∧ trip = false
  | .error error => error.isRemote = false ∧ trip = true

theorem afterRecording_of_records (h : registry.Records nodeId) (outcome : Outcome) (ending : AttemptEnd α) :
    afterRecording (registry.recordNode nodeId outcome clock) outcome recorded ending =
      ⟨(registry.recordNode nodeId outcome clock).1, recorded ++ [outcome], ending⟩ := by
  rw [afterRecording, (recordNode_of_records h outcome clock).1]

theorem recorded_afterRecording_of_not_records (h : ¬ registry.Records nodeId) (outcome : Outcome)
    (ending : AttemptEnd α) :
    (afterRecording (registry.recordNode nodeId outcome clock) outcome recorded ending).recorded = recorded := by
  obtain ⟨error, hraised⟩ := (recordNode_of_not_records h outcome clock).1
  rw [afterRecording, hraised]

/-- **What the handlers do**: they record a success, a failure or nothing. -/
theorem handleAttempt_cases (trip : Bool) (result : Except TaskError (Option α)) :
    (∃ outcome ending, handled trip result = [outcome] ∧
      handleAttempt trip nodeId clock registry recorded result =
        afterRecording (registry.recordNode nodeId outcome clock) outcome recorded ending) ∨
    handled trip result = [] ∧
      ∃ ending, handleAttempt trip nodeId clock registry recorded result = ⟨registry, recorded, ending⟩ := by
  cases result with
  | ok value => exact Or.inr ⟨rfl, _, rfl⟩
  | error error =>
    cases error with
    | remoteExecutionError errorType message traceback => exact Or.inl ⟨.success, _, rfl, rfl⟩
    | raised error | other message =>
      cases trip with
      | true => exact Or.inl ⟨.failure, _, rfl, rfl⟩
      | false => exact Or.inr ⟨rfl, _, rfl⟩

theorem recorded_handleAttempt (h : registry.Records nodeId) (result : Except TaskError (Option α)) :
    (handleAttempt trip nodeId clock registry recorded result).recorded = recorded ++ handled trip result := by
  rcases handleAttempt_cases trip result with ⟨outcome, ending, hhandled, heq⟩ | ⟨hhandled, ending, heq⟩
  · rw [heq, hhandled, afterRecording_of_records h]
  · rw [heq, hhandled, List.append_nil]

theorem recorded_handleAttempt_of_not_records (h : ¬ registry.Records nodeId) (result : Except TaskError (Option α)) :
    (handleAttempt trip nodeId clock registry recorded result).recorded = recorded := by
  rcases handleAttempt_cases trip result with ⟨outcome, ending, -, heq⟩ | ⟨-, ending, heq⟩
  · rw [heq, recorded_afterRecording_of_not_records h]
  · rw [heq]

theorem tryAttempt_ok (h : registry.Records nodeId) (result : TaskResult) :
    tryAttempt loads registry nodeId (.ok result) clock =
      ((registry.recordNode nodeId .success clock).1, [.success], unpackResult loads result) := by
  have hok := (recordNode_of_records h .success clock).1
  rw [tryAttempt, recordNodeSuccess]
  generalize registry.recordNode nodeId .success clock = recording at hok
  obtain ⟨after, raised⟩ := recording
  cases hok
  rfl

theorem tryAttempt_ok_of_not_records (h : ¬ registry.Records nodeId) (loads : List UInt8 → Except TaskError α)
    (result : TaskResult) (clock : Nat → Rat) :
    ∃ error, tryAttempt loads registry nodeId (.ok result) clock = (registry, [], .error error) := by
  obtain ⟨⟨error, hraised⟩, hafter⟩ := recordNode_of_not_records h .success clock
  rw [tryAttempt, recordNodeSuccess]
  generalize registry.recordNode nodeId .success clock = recording at hraised hafter
  obtain ⟨after, raised⟩ := recording
  cases hraised
  cases hafter
  exact ⟨.raised error, rfl⟩

theorem recorded_settleAttempt_of_not_records (h : ¬ registry.Records nodeId) (sent : Except TaskError TaskResult) :
    (settleAttempt loads registry trip nodeId sent clock).recorded = [] := by
  rw [settleAttempt]
  cases sent with
  | error error => exact recorded_handleAttempt_of_not_records h (.error error)
  | ok result =>
    obtain ⟨error, htry⟩ := tryAttempt_ok_of_not_records h loads result clock
    rw [htry]
    exact recorded_handleAttempt_of_not_records h (.error error)

theorem recorded_settleAttempt_ok (h : registry.Records nodeId) (result : TaskResult) :
    (settleAttempt loads registry trip nodeId (.ok result) clock).recorded =
      .success :: handled trip (unpackResult loads result) := by
  rw [settleAttempt, tryAttempt_ok h]
  exact recorded_handleAttempt (records_recordNode_success h clock) _

theorem handled_error_eq_failure_iff (error : TaskError) :
    handled (α := α) trip (.error error) = [.failure] ↔ error.isRemote = false ∧ trip = true := by
  rw [handled]
  cases error.isRemote <;> cases trip <;> decide

theorem handled_eq_nil_iff (result : Except TaskError (Option α)) :
    handled trip result = [] ↔ ∀ error, result = .error error → error.isRemote = false ∧ trip = false := by
  cases result with
  | ok value => exact iff_of_true rfl fun error h => by cases h
  | error error =>
    simp only [handled, Except.error.injEq, forall_eq']
    cases error.isRemote <;> cases trip <;> decide

/-- **One verdict is recorded** just if recording does not raise and the answer fits. -/
theorem recorded_settleAttempt_iff (sent : Except TaskError TaskResult) :
    (settleAttempt loads registry trip nodeId sent clock).recorded = [verdict sent] ↔
      registry.Records nodeId ∧ Fits loads trip sent := by
  by_cases h : registry.Records nodeId
  · rw [and_iff_right h]
    cases sent with
    | error error =>
      have hrecorded : (settleAttempt loads registry trip nodeId (.error error) clock).recorded =
          handled (α := α) trip (.error error) := recorded_handleAttempt h (.error error)
      rw [hrecorded, verdict, handled_error_eq_failure_iff, Fits]
    | ok result =>
      rw [recorded_settleAttempt_ok h, verdict, List.cons.injEq, and_iff_right rfl, handled_eq_nil_iff, Fits]
  · rw [recorded_settleAttempt_of_not_records h]
    exact iff_of_false (fun hnil => by cases hnil) fun hrecords => h hrecords.1

theorem registry_settleAttempt (h : registry.Records nodeId) {sent : Except TaskError TaskResult}
    (hfits : Fits loads trip sent) (clock : Nat → Rat) :
    ∃ read, (settleAttempt loads registry trip nodeId sent clock).registry =
      (registry.recordNode nodeId (verdict sent) read).1 := by
  rw [settleAttempt]
  cases sent with
  | error error =>
    obtain ⟨hremote, rfl⟩ := hfits
    cases error with
    | remoteExecutionError _ _ _ => cases hremote
    | raised error =>
      exact ⟨_, congrArg SettledAttempt.registry (afterRecording_of_records h .failure (.failed (.raised error)))⟩
    | other message =>
      exact ⟨_, congrArg SettledAttempt.registry (afterRecording_of_records h .failure (.failed (.other message)))⟩
  | ok result =>
    refine ⟨clock, ?_⟩
    rw [tryAttempt_ok h]
    cases hunpack : unpackResult loads result with
    | ok value => rfl
    | error error =>
      obtain ⟨hremote, rfl⟩ := hfits error hunpack
      cases error with
      | remoteExecutionError _ _ _ => cases hremote
      | raised _ | other _ => rfl

end Settling

namespace Dispatching

variable {α : Type} {loads : List UInt8 → Except TaskError α} {s : Dispatching α} {b : CircuitBreaker} {n : Nat}
  {nodeId : String}

section Statements

variable (loads : List UInt8 → Except TaskError α) (s : Dispatching α)

/-- An attempt that ends with the event has its one verdict. -/
def OneVerdict : DispatchEvent → Prop
  | .settle number sent clock =>
    ∀ ended ∈ s.awaiting? number, (s.settled loads ended.1 ended.2 sent clock).recorded = [verdict sent]
  | _ => True

instance : ∀ event, Decidable (s.OneVerdict loads event)
  | .settle .. => inferInstanceAs (Decidable (∀ ended ∈ _, _))
  | .dispatch .. | .wake .. | .gossip .. => .isTrue trivial

/-- Recording does not raise for the worker, and its answer fits. -/
def Plain : DispatchEvent → Prop
  | .settle number sent _ =>
    ∀ ended ∈ s.awaiting? number, s.scheduler.circuitBreakers.Records ended.2.nodeId ∧
      Fits loads ended.1.retries.tripCircuitOnTransportFailure sent
  | _ => True

/-- The worker that answers an attempt with the event. -/
def answers : DispatchEvent → List String
  | .settle number (.ok _) _ => (s.awaiting? number).toList.map fun ended => ended.2.nodeId
  | _ => []

def stateOf (nodeId : String) : Option CircuitState :=
  (s.scheduler.circuitBreakers.breakers.get? nodeId).map stored

/-- A breaker that was OPEN, then HALF_OPEN for a part of the run and then CLOSED has seen enough answered attempts
in that part. -/
def ClosesLate (events : List DispatchEvent) : Prop :=
  ∀ before period after, events = before ++ period ++ after → ∀ nodeId b,
    (run (step loads) s before).scheduler.circuitBreakers.breakers.get? nodeId = some b → b.stored = .opened →
    (∀ i, 0 < i → i < period.length → (run (step loads) s (before ++ period.take i)).stateOf nodeId = some .halfOpen) →
    (run (step loads) s (before ++ period)).stateOf nodeId = some .closed →
    b.config.halfOpenSuccessThreshold ≤
      (emitted (step loads) answers (run (step loads) s before) period).count nodeId

end Statements

theorem oneVerdict_iff_plain (event : DispatchEvent) : s.OneVerdict loads event ↔ s.Plain loads event := by
  cases event with
  | settle number sent clock => exact forall₂_congr fun ended _ => recorded_settleAttempt_iff sent
  | dispatch _ _ _ _ _ | wake _ _ | gossip _ => exact Iff.rfl

/-! ### What an event does to the breakers -/

theorem circuitBreakers_discharge (scheduler : TaskScheduler) (nodeId : String) :
    (scheduler.discharge nodeId).circuitBreakers = scheduler.circuitBreakers := by
  rw [TaskScheduler.discharge]
  cases scheduler.activeTasks.get? nodeId <;> rfl

theorem circuitBreakers_conclude (s : Dispatching α) (number : Nat) (call : DispatchCall α) (worker : WorkerCandidate)
    (settled : SettledAttempt α) :
    (s.conclude number call worker settled).scheduler.circuitBreakers = settled.registry := by
  rw [conclude]
  cases settled.ending with
  | returned value | raised error => exact circuitBreakers_discharge ..
  | failed error =>
    dsimp only
    split
    · rfl
    · exact circuitBreakers_discharge ..

theorem asked_tryNext (scheduler : TaskScheduler) (call : DispatchCall α) (selection : Selection) :
    TaskScheduler.Asked scheduler.circuitBreakers (scheduler.tryNext call selection).1.circuitBreakers := by
  have hasked := scheduler.asked_selectWorker call.policy call.excludedNodes selection
  rw [TaskScheduler.tryNext]
  split
  · exact TaskScheduler.Asked.refl _
  · generalize scheduler.selectWorker call.policy call.excludedNodes selection = selected at hasked
    obtain ⟨after, found⟩ := selected
    cases found with
    | error error => exact hasked
    | ok worker? => cases worker? <;> exact hasked

/-- **The events** read breakers, or record one verdict for one of them. -/
theorem step_cases {event : DispatchEvent} (h : s.Plain loads event) :
    s.answers event = [] ∧
      TaskScheduler.Asked s.scheduler.circuitBreakers (s.step loads event).scheduler.circuitBreakers ∨
    ∃ nodeId outcome read, s.answers event = (if outcome = .success then [nodeId] else []) ∧
      s.scheduler.circuitBreakers.Records nodeId ∧
      (s.step loads event).scheduler.circuitBreakers =
        (s.scheduler.circuitBreakers.recordNode nodeId outcome read).1 := by
  cases event with
  | dispatch name policy retryPolicy fallbackLocal selection =>
    exact Or.inl ⟨rfl, asked_tryNext s.scheduler _ selection⟩
  | gossip peers => exact Or.inl ⟨rfl, TaskScheduler.Asked.refl _⟩
  | wake number selection =>
    refine Or.inl ⟨rfl, ?_⟩
    rw [step]
    cases s.calls[number]? with
    | none => exact TaskScheduler.Asked.refl _
    | some call =>
      dsimp only
      split
      · rename_i worker _
        have hasked := asked_tryNext (s.scheduler.discharge worker.nodeId)
          { call with attempt := call.attempt + 1 } selection
        rwa [circuitBreakers_discharge] at hasked
      · exact TaskScheduler.Asked.refl _
  | settle number sent clock =>
    rw [step]
    cases hawaiting : s.awaiting? number with
    | none =>
      refine Or.inl ⟨?_, TaskScheduler.Asked.refl _⟩
      cases sent with
      | ok result => rw [answers, hawaiting]; rfl
      | error error => rfl
    | some ended =>
      obtain ⟨hrecords, hfits⟩ := h ended hawaiting
      obtain ⟨read, hregistry⟩ := registry_settleAttempt hrecords hfits clock
      refine Or.inr ⟨ended.2.nodeId, verdict sent, read, ?_, hrecords, ?_⟩
      · cases sent with
        | ok result => rw [answers, hawaiting]; rfl
        | error error => rfl
      · rw [← hregistry]
        exact circuitBreakers_conclude ..

/-! ### Half-open periods -/

/-- A breaker that is not CLOSED, and has seen at most `n` successes if it is HALF_OPEN. -/
def Seen (n : Nat) (b : CircuitBreaker) : Prop :=
  b.stored = .opened ∨ b.stored = .halfOpen ∧ b.successCount ≤ n

theorem seen_evaluated (h : Seen n b) (now changed : Rat) : Seen n (b.evaluated now changed) := by
  rw [evaluated]
  split_ifs
  · exact Or.inr ⟨rfl, Nat.zero_le n⟩
  · exact h

theorem seen_noteSuccess (h : Seen n b) (now : Rat) :
    Seen (n + 1) (b.noteSuccess now) ∨
      (b.noteSuccess now).stored = .closed ∧ b.config.halfOpenSuccessThreshold ≤ n + 1 := by
  rw [noteSuccess]
  rcases h with hopen | ⟨hhalf, hcount⟩
  · rw [hopen]
    exact Or.inl (Or.inl hopen)
  · rw [hhalf]
    dsimp only
    split_ifs with hfull
    · exact Or.inr ⟨rfl, hfull.le.trans (Nat.succ_le_succ hcount)⟩
    · exact Or.inl (Or.inr ⟨rfl, Nat.succ_le_succ hcount⟩)

theorem seen_noteFailure (h : Seen n b) (now : Rat) : Seen n (b.noteFailure now) := by
  rw [noteFailure]
  rcases h with hopen | ⟨hhalf, -⟩
  · rw [hopen]
    exact Or.inl hopen
  · rw [hhalf]
    exact Or.inl rfl

theorem seen_record (h : Seen n b) (outcome : Outcome) (clock : Nat → Rat) :
    Seen (n + if outcome = .success then 1 else 0) (b.record outcome clock) ∨
      (b.record outcome clock).stored = .closed ∧
        b.config.halfOpenSuccessThreshold ≤ n + if outcome = .success then 1 else 0 := by
  rw [record_eq]
  have hread := seen_evaluated h (clock 0) (clock 1)
  cases outcome with
  | success =>
    have hnoted := seen_noteSuccess hread (clock 2)
    rwa [config_evaluated] at hnoted
  | failure => exact Or.inl (seen_noteFailure hread (clock 2))

/-- **An event counts the answers** of a worker against the successes of its breaker. -/
theorem seen_step {event : DispatchEvent}
    (hget : s.scheduler.circuitBreakers.breakers.get? nodeId = some b) (h : Seen n b) (hplain : s.Plain loads event) :
    ∃ b', (s.step loads event).scheduler.circuitBreakers.breakers.get? nodeId = some b' ∧ b'.config = b.config ∧
      (Seen (n + (s.answers event).count nodeId) b' ∨
        b'.stored = .closed ∧ b.config.halfOpenSuccessThreshold ≤ n + (s.answers event).count nodeId) := by
  rcases step_cases hplain with ⟨hanswers, hasked⟩ | ⟨worker, outcome, read, hanswers, hrecords, hregistry⟩
  · rw [hanswers, List.count_nil, Nat.add_zero]
    rcases hasked nodeId b hget with hsame | ⟨-, changed, hturned⟩
    · exact ⟨b, hsame, rfl, Or.inl h⟩
    · exact ⟨_, hturned, rfl, Or.inl (Or.inr ⟨rfl, Nat.zero_le n⟩)⟩
  · rw [hregistry, (recordNode_of_records hrecords outcome read).2]
    by_cases hworker : nodeId = worker
    · subst hworker
      have hbreaker : s.scheduler.circuitBreakers.breaker nodeId (read 0) = b := by
        rw [breaker, hget, Option.getD_some]
      have hcount : (s.answers event).count nodeId = if outcome = .success then 1 else 0 := by
        rw [hanswers]
        split_ifs
        · exact List.count_singleton_self
        · rfl
      rw [if_pos rfl, hbreaker, hcount]
      exact ⟨_, rfl, config_record .., seen_record h outcome _⟩
    · have hcount : (s.answers event).count nodeId = 0 := by
        rw [hanswers]
        split_ifs
        · exact List.count_eq_zero.mpr (List.mem_singleton.not.mpr hworker)
        · rfl
      rw [if_neg hworker, hcount]
      exact ⟨b, hget, rfl, Or.inl h⟩

theorem closes_late_of_plain {period : List DispatchEvent} :
    ∀ {s : Dispatching α} {n : Nat} {b : CircuitBreaker},
      s.scheduler.circuitBreakers.breakers.get? nodeId = some b → Seen n b →
      Along (step loads) (Plain loads) s period →
      (run (step loads) s period).stateOf nodeId = some .closed →
      b.config.halfOpenSuccessThreshold ≤ n + (emitted (step loads) answers s period).count nodeId := by
  induction period with
  | nil =>
    intro s n b hget h _ hclosed
    rw [run_nil, stateOf, hget, Option.map_some, Option.some.injEq] at hclosed
    rcases h with hopen | ⟨hhalf, -⟩
    · cases hopen.symm.trans hclosed
    · cases hhalf.symm.trans hclosed
  | cons event rest ih =>
    intro s n b hget h hplain hclosed
    rw [emitted, List.count_append, ← Nat.add_assoc]
    obtain ⟨b', hget', hconfig, hseen | ⟨hstored, hfull⟩⟩ := seen_step hget h hplain.1
    · rw [← hconfig]
      exact ih hget' hseen hplain.2 hclosed
    · exact hfull.trans (Nat.le_add_right _ _)

/-- **Each attempt has one verdict, and breakers close late enough**, just if each worker's answer fits and none is
recorded for a breaker that cannot be evaluated. -/
theorem one_verdict_iff (loads : List UInt8 → Except TaskError α) (s : Dispatching α) (events : List DispatchEvent) :
    Along (step loads) (OneVerdict loads) s events ∧ s.ClosesLate loads events ↔
      Along (step loads) (Plain loads) s events := by
  constructor
  · rintro ⟨hverdict, -⟩
    exact hverdict.mono fun s event h => (oneVerdict_iff_plain event).mp h
  · intro hplain
    refine ⟨hplain.mono fun s event h => (oneVerdict_iff_plain event).mpr h, ?_⟩
    rintro before period after rfl nodeId b hget hopen - hclosed
    have hperiod := hplain.of_append_left.of_append_right
    rw [Lib.run_append] at hclosed
    have hlate := closes_late_of_plain hget (Or.inl hopen : Seen 0 b) hperiod hclosed
    rwa [Nat.zero_add] at hlate

def failsThenRaises : List DispatchEvent :=
  [.dispatch "square" none none true ⟨fun _ _ => 0, (0, 0)⟩, .settle 0 (.error (.other "refused")) (fun _ => 1),
    .dispatch "square" none none true ⟨fun _ _ => 10, (0, 0)⟩,
    .settle 1 (.ok { success := false, errorType := some "ValueError" }) (fun _ => 11)]

def oneWorker : Dispatching Unit :=
  { scheduler :=
      { localNodeId := "self", loadScorer := {}
        peers := some (Dict.empty.insert "worker" ⟨"worker", "10.0.0.2", 9001, 9002, 20, 30, 0⟩)
        defaultPolicy := .leastLoaded, retryPolicy := {}
        circuitBreakers := ⟨{ failureThreshold := 1 }, Dict.empty⟩, roundRobinIndex := 0
        activeTasks := Dict.empty }
    calls := [] }

/-- The application error is recorded as two successes, and so it closes the HALF_OPEN breaker at once. -/
theorem two_verdicts_of_one_answer :
    ¬ Along (step fun _ => .ok ()) (OneVerdict fun _ => .ok ()) oneWorker failsThenRaises ∧
      ¬ oneWorker.ClosesLate (fun _ => .ok ()) failsThenRaises := by
  have hget : (run (step fun _ => .ok ()) oneWorker (failsThenRaises.take 2)).scheduler.circuitBreakers.breakers.get?
      "worker" = some ⟨"worker", { failureThreshold := 1 }, .opened, 1, 0, 1, 1, 0⟩ := by
    decide +kernel
  constructor
  · decide +kernel
  · intro h
    have hlate := h (failsThenRaises.take 2) (failsThenRaises.drop 2) [] (by rfl) "worker" _ hget rfl
      (fun i hpos hlt => by
        obtain rfl : i = 1 := by
          have : i < 2 := hlt
          omega
        decide +kernel) (by decide +kernel)
    revert hlate
    decide +kernel

end Dispatching

end MeshWeaver
