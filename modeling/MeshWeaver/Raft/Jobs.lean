import MeshWeaver.Raft.CommandHistory

/-!
# The job commands

What a command can do to the jobs (`JobMove`), read off the five handlers once: it raises, it finds no job or
refuses, or it changes the one job it names by `assign`, `complete`, `fail` or `cancel`.
-/

namespace MeshWeaver

namespace ConsensusJob

variable (job : ConsensusJob)

def assign (worker : Value) (token : Int) (now : Rat) : ConsensusJob :=
  { job with status := .assigned, assignedTo := worker, assignedAt := some now,
             fencingToken := some token }

def complete (result : Value) (now : Rat) : ConsensusJob :=
  { job with status := .completed, resultBytes := result, completedAt := some now }

/-- A failed attempt: the job is queued again as long as it has retries left. -/
def fail (message : Value) (now : Rat) : ConsensusJob :=
  if job.retryCount + 1 ≥ job.maxRetries then
    { job with retryCount := job.retryCount + 1, errorMessage := message, status := .failed,
               completedAt := some now }
  else
    { job with retryCount := job.retryCount + 1, errorMessage := message, status := .submitted,
               assignedTo := .none, assignedAt := none }

def cancel (now : Rat) : ConsensusJob :=
  { job with status := .cancelled, completedAt := some now }

/-- The token given with `JOB_COMPLETE`, if any, is the job's. -/
def admits (token : Value) : Bool :=
  match token with
  | .none => true
  | token => (Value.ofOptInt job.fencingToken).pyEq token

end ConsensusJob

def RaftCommandType.isJob : RaftCommandType → Bool
  | .jobSubmit | .jobAssign | .jobComplete | .jobFail | .jobCancel => true
  | _ => false

namespace ReplicatedStateMachine

/-- **What a single command can do to the jobs**: nothing, or one thing to the job it names. -/
inductive JobMove (now : Rat) (entry : LogEntry) (sm after : ReplicatedStateMachine)
    (result : Except PyError CommandResult) : Prop
  | idle (jobs : after.jobs = sm.jobs)
      (answer : entry.commandType.isJob = true →
        after = sm.counted ∧ (∀ job, result ≠ .ok (.job job)) ∧ result ≠ truth true)
  | submits (job : ConsensusJob) (kind : entry.commandType = .jobSubmit)
      (key : entry.jobKey = .ok job.jobId) (status : job.status = .submitted)
      (token : job.fencingToken = none) (answer : result = .ok (.job job))
      (jobs : after.jobs = sm.jobs.insert job.jobId job)
  | assigns (jobId : String) (job : ConsensusJob) (worker : Value)
      (kind : entry.commandType = .jobAssign) (key : entry.jobKey = .ok jobId)
      (found : sm.jobs.get? jobId = some job)
      (jobs : after.jobs = sm.jobs.insert jobId (job.assign worker (sm.fencingTokenCounter + 1) now))
      (counter : after.fencingTokenCounter = sm.fencingTokenCounter + 1)
      (answer : result = .ok (.job (job.assign worker (sm.fencingTokenCounter + 1) now)))
  | completes (jobId : String) (job : ConsensusJob) (token value : Value)
      (kind : entry.commandType = .jobComplete) (key : entry.jobKey = .ok jobId)
      (found : sm.jobs.get? jobId = some job) (arg : entry.fencingArg = .ok token)
      (admitted : job.admits token = true)
      (jobs : after.jobs = sm.jobs.insert jobId (job.complete value now))
  | fails (jobId : String) (job : ConsensusJob) (message : Value)
      (kind : entry.commandType = .jobFail) (key : entry.jobKey = .ok jobId)
      (found : sm.jobs.get? jobId = some job)
      (jobs : after.jobs = sm.jobs.insert jobId (job.fail message now))
  | cancels (jobId : String) (job : ConsensusJob) (kind : entry.commandType = .jobCancel)
      (key : entry.jobKey = .ok jobId) (found : sm.jobs.get? jobId = some job)
      (status : job.status ≠ .completed ∧ job.status ≠ .cancelled)
      (jobs : after.jobs = sm.jobs.insert jobId (job.cancel now))

section moves
variable (now : Rat) (entry : LogEntry) (sm : ReplicatedStateMachine)

def Moves (out : Outcome) : Prop := JobMove now entry sm out.1 out.2

variable {now entry sm}

theorem Moves.raises (err : PyError) : Moves now entry sm (sm.counted, .error err) :=
  JobMove.idle rfl fun _ => ⟨rfl, by simp, by simp [truth]⟩

theorem Moves.returns {value : Value} (hvalue : value ≠ .bool true) :
    Moves now entry sm (sm.counted, .ok (.value value)) :=
  JobMove.idle rfl fun _ => ⟨rfl, by simp, by simpa [truth] using hvalue⟩

theorem submitMove (hk : entry.commandType = .jobSubmit) :
    Moves now entry sm (applyJobSubmit now entry sm.counted) := by
  obtain ⟨job?, hunfold, hjob⟩ : ∃ job?, applyJobSubmit now entry sm.counted =
        sm.counted.withArg job? (fun job =>
          ({ sm.counted with jobs := sm.jobs.insert job.jobId job }, .ok (.job job))) ∧
      ∀ job, job? = .ok job → entry.jobKey = .ok job.jobId ∧ job.status = .submitted ∧
        job.fencingToken = none := by
    refine ⟨_, rfl, fun job hjob => ?_⟩
    simp only [bind_eq_ok] at hjob
    obtain ⟨jobId, hkey, _, -, _, -, _, -, _, -, _, -, _, -, _, -, _, -, _, -, hpure⟩ := hjob
    simp only [pure, Except.pure, Except.ok.injEq] at hpure
    subst hpure
    exact ⟨hkey, rfl, rfl⟩
  rw [hunfold]
  cases hres : job? with
  | error e => exact .raises e
  | ok job =>
    obtain ⟨hkey, hstatus, htoken⟩ := hjob job hres
    exact JobMove.submits job hk hkey hstatus htoken rfl rfl

theorem assignMove (hk : entry.commandType = .jobAssign) :
    Moves now entry sm (applyJobAssign now entry sm.counted) := by
  unfold applyJobAssign
  cases hkey : entry.jobKey with
  | error e => exact .raises e
  | ok jobId =>
    simp only [withArg]
    cases entry.extraData.getD "worker_id" (.str "") with
    | error e => exact .raises e
    | ok worker =>
      cases hget : sm.counted.jobs.get? jobId with
      | none => exact .returns (by simp)
      | some job => exact JobMove.assigns jobId job worker hk hkey hget rfl rfl rfl

theorem completeMove (hk : entry.commandType = .jobComplete) :
    Moves now entry sm (applyJobComplete now entry sm.counted) := by
  unfold applyJobComplete
  cases hkey : entry.jobKey with
  | error e => exact .raises e
  | ok jobId =>
    simp only [withArg]
    cases harg : entry.fencingArg with
    | error e => exact .raises e
    | ok token =>
      cases entry.extraData.getD "result_bytes" .none with
      | error e => exact .raises e
      | ok result =>
        cases hget : sm.counted.jobs.get? jobId with
        | none => exact .returns (by simp)
        | some job =>
          dsimp only
          split_ifs with hdiffers
          · exact .returns (by simp)
          · refine JobMove.completes jobId job token result hk hkey hget harg ?_ rfl
            cases token <;> simp_all [ConsensusJob.admits]

theorem failMove (hk : entry.commandType = .jobFail) :
    Moves now entry sm (applyJobFail now entry sm.counted) := by
  unfold applyJobFail
  cases hkey : entry.jobKey with
  | error e => exact .raises e
  | ok jobId =>
    simp only [withArg]
    cases entry.extraData.getD "error_message" .none with
    | error e => exact .raises e
    | ok message =>
      cases hget : sm.counted.jobs.get? jobId with
      | none => exact .returns (by simp)
      | some job => exact JobMove.fails jobId job message hk hkey hget rfl

theorem cancelMove (hk : entry.commandType = .jobCancel) :
    Moves now entry sm (applyJobCancel now entry sm.counted) := by
  unfold applyJobCancel
  cases hkey : entry.jobKey with
  | error e => exact .raises e
  | ok jobId =>
    simp only [withArg]
    cases hget : sm.counted.jobs.get? jobId with
    | none => exact .returns (by simp)
    | some job =>
      dsimp only
      split_ifs with hdone
      · exact .returns (by simp)
      · exact JobMove.cancels jobId job hk hkey hget (not_or.mp hdone) rfl

end moves

variable {a : Applied}

theorem Applied.Leaf.jobs_eq (h : a.Leaf) (hk : a.entry.commandType.isJob = false) :
    a.after.jobs = a.before.jobs := by
  cases h.writes with
  | assign kind _ => simp [kind, RaftCommandType.isJob] at hk
  | jobs kind _ => rcases kind with kind | kind | kind | kind <;> simp [kind, RaftCommandType.isJob] at hk
  | kv only | locks _ only => rw [only]; rfl

theorem Applied.Leaf.jobMove (h : a.Leaf) : JobMove a.now a.entry a.before a.after a.result := by
  obtain ⟨clock, hnow, hafter, hresult⟩ := h.outcome
  cases hk : a.entry.commandType with
  | jobSubmit => rw [hafter, hresult, applyWithin, hk, hnow]; exact submitMove hk
  | jobAssign => rw [hafter, hresult, applyWithin, hk, hnow]; exact assignMove hk
  | jobComplete => rw [hafter, hresult, applyWithin, hk, hnow]; exact completeMove hk
  | jobFail => rw [hafter, hresult, applyWithin, hk, hnow]; exact failMove hk
  | jobCancel => rw [hafter, hresult, applyWithin, hk, hnow]; exact cancelMove hk
  | _ => exact JobMove.idle (h.jobs_eq (by rw [hk]; rfl)) (by simp [hk, RaftCommandType.isJob])

def Applied.returnsTrue (a : Applied) : Bool :=
  match a.result with
  | .ok (.value (.bool b)) => b
  | _ => false

theorem Applied.result_eq_truth (h : a.returnsTrue = true) : a.result = truth true := by
  unfold Applied.returnsTrue at h
  split at h
  · rename_i b hresult
    rw [hresult, h]
    rfl
  · cases h

theorem Applied.Leaf.job_eq (h : a.Leaf) {jobId : String} (hother : a.entry.jobKey ≠ .ok jobId) :
    a.after.jobs.get? jobId = a.before.jobs.get? jobId := by
  have hinsert : ∀ {jobId' : String} {job : ConsensusJob}, a.entry.jobKey = .ok jobId' →
      (a.before.jobs.insert jobId' job).get? jobId = a.before.jobs.get? jobId := by
    intro jobId' job hkey
    rw [Lib.Dict.get?_insert, if_neg]
    rintro rfl
    exact hother hkey
  cases h.jobMove with
  | idle hjobs => rw [hjobs]
  | submits _ _ key _ _ _ jobs | assigns _ _ _ _ key _ jobs | completes _ _ _ _ _ key _ _ _ jobs
  | fails _ _ _ _ key _ jobs | cancels _ _ _ key _ _ jobs => rw [jobs, hinsert key]

end ReplicatedStateMachine

end MeshWeaver
