import MeshWeaver.Raft.Leases

/-!
# Finished jobs

The handlers do not check whether a job is finished: `JOB_ASSIGN` and `JOB_FAIL` open it again, `JOB_COMPLETE` completes
it again unless its token is out of date, and `JOB_CANCEL` cancels a failed one. As long as no such command reaches a
finished job (`Applied.Spares`), finished jobs stay as they are and a job is completed at most once.
-/

namespace MeshWeaver

open Lib

def ConsensusJobStatus.finished : ConsensusJobStatus → Bool
  | .completed | .failed | .cancelled => true
  | .submitted | .assigned | .running => false

namespace ReplicatedStateMachine

namespace Applied

variable (a : Applied)

def named? : Option ConsensusJob :=
  match a.entry.jobKey with
  | .ok jobId => a.before.jobs.get? jobId
  | .error _ => none

/-- The command does not reach a finished job, or its handler turns it down. -/
def Spares : Prop :=
  ∀ job ∈ a.named?, job.status.finished = true →
    a.entry.commandType ≠ .jobAssign ∧ a.entry.commandType ≠ .jobFail ∧
    (a.entry.commandType = .jobComplete → ∀ token ∈ a.entry.fencingArg.toOption,
      job.admits token = false) ∧
    (a.entry.commandType = .jobCancel → job.status ≠ .failed)
deriving Decidable

def submitted? : Option String :=
  match a.entry.commandType, a.result with
  | .jobSubmit, .ok (.job job) => some job.jobId
  | _, _ => none

/-- The command is a `JOB_COMPLETE` for the job, and returns `True`. -/
def Completes (jobId : String) : Prop :=
  a.entry.commandType = .jobComplete ∧ a.entry.jobKey = .ok jobId ∧ a.returnsTrue = true
deriving Decidable

end Applied

section step
variable {a : Applied} {jobId : String} {job : ConsensusJob}

theorem named?_eq (hkey : a.entry.jobKey = .ok jobId) (hfound : a.before.jobs.get? jobId = some job) :
    a.named? = some job := by
  rw [Applied.named?, hkey, ← hfound]

theorem named_unique {jobId' : String} {job' : ConsensusJob} (hkey : a.entry.jobKey = .ok jobId)
    (hfound : a.before.jobs.get? jobId = some job) (hkey' : a.entry.jobKey = .ok jobId')
    (hfound' : a.before.jobs.get? jobId' = some job') : jobId' = jobId ∧ job' = job := by
  cases hkey'.symm.trans hkey
  cases hfound'.symm.trans hfound
  exact ⟨rfl, rfl⟩

theorem Applied.Leaf.finished_step (h : a.Leaf) (hspares : a.Spares)
    (hfound : a.before.jobs.get? jobId = some job) (hfinished : job.status.finished = true)
    (honce : ∀ id ∈ a.submitted?, id ≠ jobId) : a.after.jobs.get? jobId = some job := by
  by_cases hkey : a.entry.jobKey = .ok jobId
  · obtain ⟨hassign, hfail, hcomplete, hcancel⟩ := hspares job (named?_eq hkey hfound) hfinished
    cases h.jobMove with
    | idle jobs => rw [jobs, hfound]
    | submits job' kind key _ _ result _ =>
      rw [hkey, Except.ok.injEq] at key
      exact absurd key.symm (honce _ (by simp [Applied.submitted?, kind, result]))
    | assigns _ _ _ kind => exact absurd kind hassign
    | completes jobId' job' token _ kind key found arg admitted _ =>
      obtain ⟨rfl, rfl⟩ := named_unique hkey hfound key found
      simp [hcomplete kind token (by rw [arg]; rfl)] at admitted
    | fails _ _ _ kind => exact absurd kind hfail
    | cancels jobId' job' kind key found status _ =>
      cases hs : job'.status <;> simp_all [ConsensusJobStatus.finished]
  · rw [h.job_eq hkey, hfound]

theorem Applied.Leaf.finished_of_completes (h : a.Leaf) (hc : a.Completes jobId) :
    ∃ job', a.after.jobs.get? jobId = some job' ∧ job'.status.finished = true := by
  obtain ⟨hkind, hkey, htrue⟩ := hc
  cases h.jobMove with
  | idle _ answer => exact absurd (Applied.result_eq_truth htrue) (answer (by rw [hkind]; rfl)).2.2
  | completes jobId' job' token result kind key found arg admitted jobs =>
    rw [hkey, Except.ok.injEq] at key
    subst key
    exact ⟨job'.complete result a.now, by rw [jobs, Dict.get?_insert_self], rfl⟩
  | submits _ kind | assigns _ _ _ kind | fails _ _ _ kind | cancels _ _ kind =>
    simp [hkind] at kind

theorem Applied.Leaf.not_completes (h : a.Leaf) (hspares : a.Spares)
    (hfound : a.before.jobs.get? jobId = some job) (hfinished : job.status.finished = true) :
    ¬ a.Completes jobId := by
  rintro ⟨hkind, hkey, htrue⟩
  obtain ⟨-, -, hcomplete, -⟩ := hspares job (named?_eq hkey hfound) hfinished
  cases h.jobMove with
  | idle _ answer => exact absurd (Applied.result_eq_truth htrue) (answer (by rw [hkind]; rfl)).2.2
  | completes jobId' job' token result kind key found arg admitted _ =>
    obtain ⟨rfl, rfl⟩ := named_unique hkey hfound key found
    simp [hcomplete kind token (by rw [arg]; rfl)] at admitted
  | submits _ kind | assigns _ _ _ kind | fails _ _ _ kind | cancels _ _ kind =>
    simp [hkind] at kind

theorem Applied.Leaf.known (h : a.Leaf) (hknown : (a.after.jobs.get? jobId).isSome) :
    (a.before.jobs.get? jobId).isSome ∨ a.submitted? = some jobId := by
  by_cases hkey : a.entry.jobKey = .ok jobId
  · cases h.jobMove with
    | idle jobs => exact Or.inl (jobs ▸ hknown)
    | submits job' kind key _ _ result _ =>
      rw [hkey, Except.ok.injEq] at key
      exact Or.inr (by simp [Applied.submitted?, kind, result, key])
    | assigns _ _ _ _ key found | completes _ _ _ _ _ key found _ _ _ | fails _ _ _ _ key found _
    | cancels _ _ _ key found _ _ =>
      rw [hkey, Except.ok.injEq] at key
      subst key
      exact Or.inl (by rw [found]; rfl)
  · rw [h.job_eq hkey] at hknown
    exact Or.inl hknown

end step

/-! ### Whole histories -/

namespace Linked

variable {sm sm' : ReplicatedStateMachine} {as : List Applied} {jobId : String} {job : ConsensusJob}

theorem known (h : Linked sm as sm') (hknown : (sm'.jobs.get? jobId).isSome) :
    (sm.jobs.get? jobId).isSome ∨ jobId ∈ as.filterMap Applied.submitted? := by
  induction h with
  | nil same =>
    rw [same] at hknown
    exact Or.inl hknown
  | @cons sm sm' a as same leaf rest ih =>
    rcases ih hknown with hafter | hmem
    · rcases leaf.known hafter with hbefore | hnew
      · rw [same] at hbefore
        exact Or.inl hbefore
      · exact Or.inr (List.mem_filterMap.mpr ⟨a, List.mem_cons_self, hnew⟩)
    · exact Or.inr (((List.sublist_cons_self a as).filterMap _).subset hmem)

/-- **A finished job** that is not submitted again stays the same and is not completed again. -/
theorem finished (h : Linked sm as sm') (hspares : ∀ a ∈ as, a.Spares)
    (honce : jobId ∉ as.filterMap Applied.submitted?) (hfound : sm.jobs.get? jobId = some job)
    (hfinished : job.status.finished = true) :
    ∀ b ∈ as, b.after.jobs.get? jobId = some job ∧ ¬ b.Completes jobId := by
  induction h with
  | nil same => simp
  | @cons sm sm' a as same leaf rest ih =>
    have hbefore : a.before.jobs.get? jobId = some job := by
      rwa [same]
    have hother : ∀ id ∈ a.submitted?, id ≠ jobId := by
      rintro id hid rfl
      exact honce (List.mem_filterMap.mpr ⟨a, List.mem_cons_self, hid⟩)
    have hrest : jobId ∉ as.filterMap Applied.submitted? := fun hmem =>
      honce (((List.sublist_cons_self a as).filterMap _).subset hmem)
    have hspare := hspares a List.mem_cons_self
    have hafter := leaf.finished_step hspare hbefore hfinished hother
    intro b hb
    rcases List.mem_cons.mp hb with rfl | hb
    · exact ⟨hafter, leaf.not_completes hspare hbefore hfinished⟩
    · exact ih (fun a ha => hspares a (List.mem_cons_of_mem _ ha)) hrest hafter b hb

/-- **At most one completion** of each job. -/
theorem completes_once (h : Linked sm as sm') (hspares : ∀ a ∈ as, a.Spares)
    (hnodup : (as.filterMap Applied.submitted?).Nodup)
    (hfresh : ∀ id, (sm.jobs.get? id).isSome → id ∉ as.filterMap Applied.submitted?)
    (jobId : String) : (as.filter fun a => a.Completes jobId).length ≤ 1 := by
  induction h with
  | nil _ => simp
  | @cons sm sm' a as same leaf rest ih =>
    have hspares' : ∀ a ∈ as, a.Spares := fun a ha => hspares a (List.mem_cons_of_mem _ ha)
    have htail : (as.filterMap Applied.submitted?).Sublist ((a :: as).filterMap Applied.submitted?) :=
      (List.sublist_cons_self a as).filterMap _
    have hfresh' : ∀ id, (a.after.jobs.get? id).isSome → id ∉ as.filterMap Applied.submitted? := by
      intro id hid
      rcases leaf.known hid with hbefore | hnew
      · rw [same] at hbefore
        exact fun hmem => hfresh id hbefore (htail.subset hmem)
      · rw [List.filterMap_cons_some hnew] at hnodup
        exact (List.nodup_cons.mp hnodup).1
    have hnodup' : (as.filterMap Applied.submitted?).Nodup := hnodup.sublist htail
    by_cases hc : a.Completes jobId
    · obtain ⟨job, hfound, hfinished⟩ := leaf.finished_of_completes hc
      have hnone := rest.finished hspares' (hfresh' jobId (by rw [hfound]; rfl)) hfound hfinished
      rw [List.filter_cons_of_pos (by simpa using hc), List.filter_eq_nil_iff.mpr]
      · simp
      · intro b hb
        simpa using (hnone b hb).2
    · rw [List.filter_cons_of_neg (by simpa using hc)]
      exact ih hspares' hnodup' hfresh'

end Linked

/-- **Finished jobs stay as they are** in a history that submits each job once and spares the finished
ones, and each job is completed at most once. -/
theorem finished_jobs_stay (clock : Clock) (entries : List LogEntry)
    (honce : ((historyAll clock entries empty).filterMap Applied.submitted?).Nodup)
    (hspares : ∀ a ∈ historyAll clock entries empty, a.Spares) :
    (∀ pre a post, historyAll clock entries empty = pre ++ a :: post →
      ∀ jobId job, a.before.jobs.get? jobId = some job → job.status.finished = true →
        ∀ b ∈ a :: post, b.after.jobs.get? jobId = some job) ∧
      ∀ jobId, ((historyAll clock entries empty).filter fun a => a.Completes jobId).length ≤ 1 := by
  have hlinked := linked_historyAll clock entries empty
  have hempty : ∀ jobId, ¬ (empty.jobs.get? jobId).isSome := fun jobId h => by cases h
  refine ⟨?_, hlinked.completes_once hspares honce fun id hid => absurd hid (hempty id)⟩
  intro pre a post hsplit jobId job hfound hfinished b hb
  rw [hsplit] at hlinked honce hspares
  obtain ⟨sm, hpre, hpost⟩ := hlinked.of_append
  have hfound' : sm.jobs.get? jobId = some job := by
    cases hpost with
    | cons same leaf rest =>
      rw [same] at hfound
      exact hfound
  -- the job was submitted before `a`, so it is not submitted from there on
  have hpast : jobId ∈ pre.filterMap Applied.submitted? :=
    (hpre.known (by rw [hfound']; rfl)).resolve_left (hempty jobId)
  rw [List.filterMap_append] at honce
  have hlater : jobId ∉ (a :: post).filterMap Applied.submitted? := fun hmem =>
    (List.nodup_append.mp honce).2.2 jobId hpast jobId hmem rfl
  exact (hpost.finished (fun a ha => hspares a (List.mem_append_right _ ha)) hlater hfound' hfinished
    b hb).1

def jobEntry (commandType : RaftCommandType) (fencingToken : Option Int) (timestamp : Rat) : LogEntry :=
  { index := 1, term := 1, commandType, key := some "j", value := .none, clientId := some "w",
    timestamp, fencingToken, extraData := .dict [("worker_id", .str "w")] }

def lateAnswers : List LogEntry :=
  [jobEntry .jobSubmit none 1, jobEntry .jobAssign none 2, jobEntry .jobAssign none 3,
    jobEntry .jobComplete (some 2) 4, jobEntry .jobComplete (some 1) 5, jobEntry .jobCancel none 6]

theorem lateAnswers_spare :
    (∀ b ∈ (historyAll (fun _ => 0) lateAnswers empty).drop 4,
      (b.after.jobs.get? "j").map (·.status) = some .completed) ∧
    ((historyAll (fun _ => 0) lateAnswers empty).filter fun a => a.Completes "j").length ≤ 1 := by
  have h := finished_jobs_stay (fun _ => 0) lateAnswers (by decide +kernel) (by decide +kernel)
  have hdone : ∀ a ∈ ((historyAll (fun _ => 0) lateAnswers empty).drop 4).head?,
      (a.before.jobs.get? "j").map (·.status) = some .completed := by decide +kernel
  refine ⟨?_, h.2 "j"⟩
  cases hdrop : (historyAll (fun _ => 0) lateAnswers empty).drop 4 with
  | nil => simp
  | cons a post =>
    rw [hdrop] at hdone
    obtain ⟨job, hfound, hstatus⟩ := Option.map_eq_some_iff.mp (hdone a rfl)
    intro b hb
    have hsplit := List.take_append_drop 4 (historyAll (fun _ => 0) lateAnswers empty)
    rw [hdrop] at hsplit
    rw [h.1 _ a post hsplit.symm "j" job hfound (by rw [hstatus]; rfl) b hb]
    exact congrArg some hstatus

def reaped : List LogEntry :=
  [jobEntry .jobSubmit none 1, jobEntry .jobAssign none 2, jobEntry .jobComplete (some 1) 3,
    jobEntry .jobFail none 4, jobEntry .jobAssign none 5, jobEntry .jobComplete (some 2) 6]

/-- **A finished job is run again**: the `JOB_FAIL` queues it, and it is completed a second time. -/
theorem reaped_runs_again :
    ((historyAll (fun _ => 0) reaped empty).filterMap Applied.submitted?).Nodup ∧
    ((historyAll (fun _ => 0) reaped empty).map fun a =>
        (a.after.jobs.get? "j").map fun job => (job.status, job.completedAt)) =
      [some (.submitted, none), some (.assigned, none), some (.completed, some 3),
        some (.submitted, some 3), some (.assigned, some 3), some (.completed, some 6)] ∧
    ((historyAll (fun _ => 0) reaped empty).filter fun a => a.Completes "j").length = 2 := by
  decide +kernel

end ReplicatedStateMachine

end MeshWeaver
