import MeshWeaver.Lib.Run
import MeshWeaver.Orchestrator.Loops

/-!
# Fencing executions

An execution should change its job only while the job is assigned to it as it was when the execution started. But
`JOB_COMPLETE` carries the token that the job has at the end of the execution, `JOB_FAIL` carries none, and neither
looks at the status. It holds as long as nothing else reaches a job while an execution of it is under way, or what
one has proposed is waiting (`executions_fenced`).
-/

namespace MeshWeaver

open Lib ReplicatedStateMachine

namespace ReplicatedStateMachine

/-- The job that a single command reaches: the one it names, unless its token is out of date. -/
def Applied.reached? (a : Applied) : Option String :=
  match a.entry.jobKey with
  | .error _ => none
  | .ok jobId =>
    match a.entry.commandType with
    | .jobSubmit | .jobAssign | .jobFail | .jobCancel => some jobId
    | .jobComplete =>
      match a.entry.fencingArg, a.before.jobs.get? jobId with
      | .ok token, some job => if job.admits token then some jobId else none
      | _, _ => none
    | _ => none

section reach
variable {a : Applied} {jobId : String}

theorem Applied.Leaf.eq_of_not_reached (h : a.Leaf) (hnot : a.reached? ≠ some jobId) :
    a.after.jobs.get? jobId = a.before.jobs.get? jobId := by
  have hinsert : ∀ {id : String} {job : ConsensusJob}, a.reached? = some id →
      (a.before.jobs.insert id job).get? jobId = a.before.jobs.get? jobId := by
    intro id job hreached
    rw [Dict.get?_insert, if_neg]
    rintro rfl
    exact hnot hreached
  cases h.jobMove with
  | idle jobs => rw [jobs]
  | submits _ kind key _ _ _ jobs | assigns _ _ _ kind key _ jobs | fails _ _ _ kind key _ jobs
  | cancels _ _ kind key _ _ jobs =>
    rw [jobs, hinsert]
    rw [Applied.reached?, key, kind]
  | completes id job token result kind key found arg admitted jobs =>
    rw [jobs, hinsert]
    rw [Applied.reached?, key, kind, arg]
    dsimp only
    rw [found]
    dsimp only
    rw [if_pos admitted]

theorem Applied.Leaf.reached_of_submitted (h : a.Leaf) (hsub : a.submitted? = some jobId) :
    a.reached? = some jobId := by
  unfold Applied.submitted? at hsub
  split at hsub
  · rename_i job hkind hresult
    cases hsub
    cases h.jobMove with
    | idle _ answer => exact absurd hresult ((answer (by rw [hkind]; rfl)).2.1 job)
    | submits job' _ key _ _ hres =>
      rw [hresult] at hres
      cases hres
      rw [Applied.reached?, key, hkind]
    | assigns _ _ _ kind | completes _ _ _ _ kind | fails _ _ _ kind | cancels _ _ kind => simp [hkind] at kind
  · cases hsub

theorem Linked.eq_of_not_reached {sm sm' : ReplicatedStateMachine} {as : List Applied}
    (h : Linked sm as sm') (hnot : ∀ a ∈ as, a.reached? ≠ some jobId) :
    sm'.jobs.get? jobId = sm.jobs.get? jobId ∧ (⟨jobId, none⟩ : JobRef).followAll as = ⟨jobId, none⟩ := by
  induction h with
  | nil same =>
    rw [same]
    exact ⟨rfl, rfl⟩
  | @cons sm sm' a as same leaf rest ih =>
    obtain ⟨hrest, hrefs⟩ := ih fun b hb => hnot b (List.mem_cons_of_mem _ hb)
    have hhere := hnot a List.mem_cons_self
    refine ⟨?_, ?_⟩
    · rw [hrest, leaf.eq_of_not_reached hhere, same]
    · have hfollow : (⟨jobId, none⟩ : JobRef).follow a = ⟨jobId, none⟩ :=
        if_neg fun hsub => hhere (leaf.reached_of_submitted hsub)
      rwa [JobRef.followAll, List.foldl_cons, hfollow]

end reach

end ReplicatedStateMachine

/-! ### The invariant -/

open ReplicatedStateMachine (history applyCommand)

def LogEntry.Returns (entry : LogEntry) : Prop :=
  ∀ clock sm, ∃ result, (applyCommand clock entry sm).2 = .ok result

theorem LogEntry.returns_of_report {entry : LogEntry} (jobId : String) {items : List (String × Value)}
    (hkind : entry.commandType = .jobComplete ∨ entry.commandType = .jobFail)
    (hkey : entry.jobKey = .ok jobId) (hextra : entry.extraData = .dict items) : entry.Returns := by
  intro clock sm
  have hget : ∀ name default, ∃ v, entry.extraData.getD name default = .ok v := by
    intro name default
    rw [hextra]
    exact ⟨_, rfl⟩
  rcases hkind with hkind | hkind
  · obtain ⟨token, htoken⟩ : ∃ token, entry.fencingArg = .ok token := by
      unfold LogEntry.fencingArg
      split
      · split_ifs
        · exact hget _ _
        · exact ⟨_, rfl⟩
      · exact hget _ _
    obtain ⟨bytes, hbytes⟩ := hget "result_bytes" .none
    rw [applyCommand, applyWithin, hkind]
    simp only [applyJobComplete, withArg, hkey, htoken,
      hbytes]
    split
    · exact ⟨_, rfl⟩
    · split_ifs
      · exact ⟨_, rfl⟩
      · exact ⟨_, rfl⟩
  · obtain ⟨message, hmessage⟩ := hget "error_message" .none
    rw [applyCommand, applyWithin, hkind]
    simp only [applyJobFail, withArg, hkey, hmessage]
    split
    · exact ⟨_, rfl⟩
    · exact ⟨_, rfl⟩

/-- The command was proposed by the execution, which waits for it. -/
def Execution.awaits (e : Execution) (p : JobProposal) : Bool :=
  match e.phase with
  | .proposing token index _ => index = p.entry.index ∧ p.origin = some ⟨e.job.jobId, token⟩
  | _ => false

/-- The token the execution started with, if it has started, is `token`. -/
def Execution.Started (e : Execution) (token : Option Int) : Prop :=
  match e.phase with
  | .running started | .proposing started _ _ => started = token
  | _ => True

def ReplicatedStateMachine.Assigned (sm : ReplicatedStateMachine) (jobId : String)
    (P : Option Int → Prop) : Prop :=
  ∃ job, sm.jobs.get? jobId = some job ∧ job.status = .assigned ∧ P job.fencingToken

namespace OrchestratorState

def due? (s : OrchestratorState) : OrchestratorEvent → Option JobProposal
  | .apply => s.log[s.lastApplied]?
  | _ => none

/-- **A command that reaches a job** is applied only when no execution of the job is under way except the
one that proposed it, and nothing else that an execution of the job has proposed is waiting. -/
def Undisturbed (cfg : OrchestratorConfig) (s : OrchestratorState) (ev : OrchestratorEvent) : Prop :=
  ∀ p ∈ s.due? ev, ∀ a ∈ history cfg.clock p.entry s.stateMachine, ∀ jobId ∈ a.reached?,
    (∀ q ∈ s.log.drop (s.lastApplied + 1), q.origin.map Origin.jobId ≠ some jobId) ∧
    ∀ e ∈ s.localExecutingJobs.get? jobId, e.phase = .done ∨ e.awaits p = true
deriving Decidable

/-- **What an execution has proposed** changes its job only if the job is still assigned with the token
that it had when the execution started. -/
def Fenced (cfg : OrchestratorConfig) (s : OrchestratorState) (ev : OrchestratorEvent) : Prop :=
  ∀ p ∈ s.due? ev, ∀ origin ∈ p.origin,
    (s.step cfg ev).stateMachine.jobs.get? origin.jobId ≠ s.stateMachine.jobs.get? origin.jobId →
    ∃ job, s.stateMachine.jobs.get? origin.jobId = some job ∧ job.status = .assigned ∧
      job.fencingToken = origin.token

/-- **The invariant**: the jobs of all executions under way, and of all that they have proposed, are
assigned as they were when the execution started. -/
structure Ok (s : OrchestratorState) : Prop where
  bounded : s.lastApplied ≤ s.log.length
  executing : ∀ jobId e, s.localExecutingJobs.get? jobId = some e → e.phase ≠ .done →
    e.job = ⟨jobId, none⟩ ∧ s.stateMachine.Assigned jobId e.Started
  pending : ∀ p ∈ s.log.drop s.lastApplied, ∀ origin, p.origin = some origin →
    p.entry.Returns ∧ s.stateMachine.Assigned origin.jobId (· = origin.token)

section step
variable {cfg : OrchestratorConfig} {s : OrchestratorState} {e : Execution} {jobId : String} {p : JobProposal}

theorem Ok.with_leader (h : s.Ok) (leader : LeaderPhase) : Ok { s with leader } :=
  ⟨h.bounded, h.executing, h.pending⟩

theorem Ok.propose (h : s.Ok) (command : Command) (now : Rat) (origin : Option Origin)
    (horigin : ∀ o, origin = some o →
      (s.newEntry cfg command now).Returns ∧ s.stateMachine.Assigned o.jobId (· = o.token)) :
    (s.propose cfg command now origin).Ok where
  bounded := by
    rw [OrchestratorState.propose, List.length_append]
    exact h.bounded.trans (Nat.le_add_right _ _)
  executing := h.executing
  pending := by
    intro p hp o ho
    rw [OrchestratorState.propose, List.drop_append_of_le_length h.bounded] at hp
    rcases List.mem_append.mp hp with hold | hnew
    · exact h.pending p hold o ho
    · cases List.mem_singleton.mp hnew
      exact horigin o ho

theorem Ok.propose_none (h : s.Ok) (command : Command) (now : Rat) : (s.propose cfg command now none).Ok :=
  h.propose command now none fun o ho => by cases ho

theorem Ok.nextJob (h : s.Ok) (now : Rat) : (s.nextJob cfg now).Ok := by
  unfold OrchestratorState.nextJob
  split
  · exact h
  · exact h.with_leader _
  · exact (h.propose_none _ now).with_leader _
  · exact h.with_leader _
  · unfold reapNext
    split
    · exact h.with_leader _
    · split
      · exact h.with_leader _
      · split_ifs
        · exact (h.propose_none _ now).with_leader _
        · exact (h.propose_none _ now).with_leader _
        · exact h.with_leader _

theorem get?_createTasks (ids : List String) {executing : Dict String Execution}
    (h : (ids.foldl createTask executing).get? jobId = some e) :
    executing.get? jobId = some e ∨ jobId ∈ ids ∧ e = ⟨⟨jobId, none⟩, .created⟩ := by
  induction ids generalizing executing with
  | nil => exact Or.inl h
  | cons id ids ih =>
    rcases ih h with hold | ⟨hmem, hnew⟩
    · unfold createTask at hold
      split at hold
      · exact Or.inl hold
      · rw [Dict.get?_insert] at hold
        split_ifs at hold with hid
        · cases hold
          exact Or.inr ⟨by rw [hid]; exact List.mem_cons_self, by rw [hid]⟩
        · exact Or.inl hold
    · exact Or.inr ⟨List.mem_cons_of_mem _ hmem, hnew⟩

theorem Ok.workRound (h : s.Ok) : (s.workRound cfg).Ok where
  bounded := h.bounded
  executing := by
    intro jobId e he hphase
    obtain ⟨he, -⟩ := (Dict.get?_filterValues _ _ _ _).mp he
    rcases get?_createTasks _ he with hold | ⟨hmine, rfl⟩
    · exact h.executing jobId e hold hphase
    · -- a new task is for a job that is assigned
      obtain ⟨⟨id, job⟩, hmem, rfl⟩ := List.mem_map.mp hmine
      obtain ⟨hitem, hstatus⟩ := List.mem_filter.mp (List.mem_filter.mp hmem).1
      exact ⟨rfl, job, (Dict.mem_items_iff _ _ _).mp hitem, of_decide_eq_true hstatus, trivial⟩
  pending := h.pending

theorem Ok.setPhase (h : s.Ok) {phase : ExecutionPhase}
    (he : phase ≠ .done →
      e.job = ⟨jobId, none⟩ ∧ s.stateMachine.Assigned jobId (Execution.Started { e with phase })) :
    (s.setPhase jobId e phase).Ok where
  bounded := h.bounded
  executing := by
    intro id e' he' hphase
    rw [OrchestratorState.setPhase, Dict.get?_insert] at he'
    split_ifs at he' with hid
    · cases he'
      rw [hid]
      exact he hphase
    · exact h.executing id e' he' hphase
  pending := h.pending

theorem jobKey_newEntry {s : OrchestratorState} {command : Command} {now : Rat}
    {rest : List (String × Value)} (hkey : command.key = some jobId)
    (hextra : command.extraData = ("job_id", .str jobId) :: rest) :
    (s.newEntry cfg command now).jobKey = .ok jobId := by
  rw [LogEntry.jobKey, newEntry, hkey, hextra]
  dsimp only
  split_ifs
  · rfl
  · rfl

theorem Ok.report (h : s.Ok) {token : Option Int} {command : Command}
    (completing : Bool) (now : Rat) (hjob : e.job = ⟨jobId, none⟩) (hheld : s.stateMachine.Assigned jobId (· = token))
    (hreturns : ∀ s : OrchestratorState, (s.newEntry cfg command now).Returns) :
    (s.report cfg jobId e token command completing now).Ok := by
  have hheld' : s.stateMachine.Assigned jobId (Execution.Started
      { e with phase := .proposing token (s.log.length + 1) completing }) := by
    obtain ⟨job, hfound, hstatus, htoken⟩ := hheld
    exact ⟨job, hfound, hstatus, htoken.symm⟩
  refine (h.setPhase fun _ => ⟨hjob, hheld'⟩).propose command now _ ?_
  rintro o ⟨⟩
  exact ⟨hreturns _, hheld⟩

theorem returns_failCommand (s : OrchestratorState) (jobId message : String) (now : Rat) :
    (s.newEntry cfg (failCommand cfg jobId message) now).Returns :=
  LogEntry.returns_of_report jobId (Or.inr rfl) (jobKey_newEntry rfl rfl) rfl

theorem returns_completeCommand (s : OrchestratorState) (jobId : String) (token : Option Int)
    (result : String) (now : Rat) : (s.newEntry cfg (completeCommand cfg jobId token result) now).Returns :=
  LogEntry.returns_of_report jobId (Or.inl rfl) (jobKey_newEntry rfl rfl) rfl

theorem Ok.execute (h : s.Ok) (he : s.localExecutingJobs.get? jobId = some e) (action : ExecutionAction) :
    (s.execute cfg jobId e action).Ok := by
  have hrunning : ∀ token, e.phase = .running token →
      e.job = ⟨jobId, none⟩ ∧ s.stateMachine.Assigned jobId (· = token) := by
    intro token hphase
    obtain ⟨hjob, job, hfound, hstatus, hstarted⟩ := h.executing jobId e he (by simp [hphase])
    rw [Execution.Started, hphase] at hstarted
    exact ⟨hjob, job, hfound, hstatus, hstarted.symm⟩
  cases action with
  | start =>
    rw [OrchestratorState.execute]
    cases hphase : e.phase with
    | created =>
      obtain ⟨hjob, job, hfound, hstatus, -⟩ := h.executing jobId e he (by simp [hphase])
      refine h.setPhase fun _ => ⟨hjob, job, hfound, hstatus, ?_⟩
      change s.tokenOf e = job.fencingToken
      rw [tokenOf, hjob, JobRef.read, hfound]
    | _ => exact h
  | succeed result now =>
    rw [OrchestratorState.execute]
    cases hphase : e.phase with
    | running token =>
      obtain ⟨hjob, hheld⟩ := hrunning token hphase
      exact h.report true now hjob hheld fun s' => returns_completeCommand s' jobId _ result now
    | _ => exact h
  | fail message now =>
    rw [OrchestratorState.execute]
    cases hphase : e.phase with
    | running token =>
      obtain ⟨hjob, hheld⟩ := hrunning token hphase
      exact h.report false now hjob hheld fun s' => returns_failCommand s' jobId message now
    | _ => exact h
  | expire now =>
    rw [OrchestratorState.execute]
    cases hphase : e.phase with
    | proposing token index completing =>
      obtain ⟨hjob, job, hfound, hstatus, hstarted⟩ := h.executing jobId e he (by simp [hphase])
      rw [Execution.Started, hphase] at hstarted
      cases completing with
      | true =>
        exact h.report false now hjob ⟨job, hfound, hstatus, hstarted.symm⟩ fun s' =>
          returns_failCommand s' jobId _ now
      | false => exact h.setPhase fun hdone => absurd rfl hdone
    | _ => exact h

theorem kept {sm : ReplicatedStateMachine} {P : Option Int → Prop}
    (hsm : sm = (applyCommand cfg.clock p.entry s.stateMachine).1)
    (hnot : ∀ a ∈ history cfg.clock p.entry s.stateMachine, a.reached? ≠ some jobId)
    (h : s.stateMachine.Assigned jobId P) :
    sm.Assigned jobId P ∧
      (⟨jobId, none⟩ : JobRef).followAll (history cfg.clock p.entry s.stateMachine) = ⟨jobId, none⟩ := by
  have hlinked := linked_historyWithin (p.entry.extraData.depth + 1) cfg.clock
    p.entry s.stateMachine
  obtain ⟨hsame, hrefs⟩ := hlinked.eq_of_not_reached hnot
  obtain ⟨job, hfound, hstatus, htoken⟩ := h
  refine ⟨⟨job, ?_, hstatus, htoken⟩, hrefs⟩
  rw [hsm, applyCommand, hsame, hfound]

theorem awaits_of_origin_none (h : p.origin = none) : e.awaits p = false := by
  unfold Execution.awaits
  split
  · simp [h]
  · rfl

theorem awaits_of_phase (h : ∀ token completing, e.phase ≠ .proposing token p.entry.index completing) :
    e.awaits p = false := by
  unfold Execution.awaits
  split
  · rename_i token index completing hproposing
    have hindex : index ≠ p.entry.index := by
      rintro rfl
      exact h token completing hproposing
    simp [hindex]
  · rfl

theorem resolve_phase {index : Int} (h : (resolve index e).phase ≠ .done) :
    resolve index e = e ∧ ∀ token completing, e.phase ≠ .proposing token index completing := by
  unfold resolve at h ⊢
  split at h
  · rename_i token awaited completing hphase
    split_ifs at h with hindex
    · exact absurd rfl h
    · refine ⟨if_neg hindex, fun token' completing' hphase' => ?_⟩
      rw [hphase] at hphase'
      cases hphase'
      exact hindex rfl
  · rename_i hphase
    exact ⟨rfl, fun token completing hphase' => hphase token index completing hphase'⟩

/-- **Applying an entry** keeps the invariant if it disturbs nobody. -/
theorem Ok.applyNext (h : s.Ok) (hp : s.log[s.lastApplied]? = some p)
    (hundisturbed : s.Undisturbed cfg .apply) : (s.applyNext cfg p).Ok := by
  have hbound : s.lastApplied < s.log.length := (List.getElem?_eq_some_iff.mp hp).1
  have hdrop : s.log.drop s.lastApplied = p :: s.log.drop (s.lastApplied + 1) := by
    rw [List.drop_eq_getElem_cons hbound, (List.getElem?_eq_some_iff.mp hp).2]
  generalize hout : applyCommand cfg.clock p.entry s.stateMachine = out
  obtain ⟨sm, result⟩ := out
  have hsm : sm = (applyCommand cfg.clock p.entry s.stateMachine).1 := by rw [hout]
  -- who works on without waiting for the entry, and what waits behind it, is not reached
  have hworking : ∀ jobId e, s.localExecutingJobs.get? jobId = some e → e.phase ≠ .done →
      e.awaits p = false →
      e.job.followAll (history cfg.clock p.entry s.stateMachine) = ⟨jobId, none⟩ ∧
        sm.Assigned jobId e.Started := by
    intro jobId e he hphase hawaits
    obtain ⟨hjob, hheld⟩ := h.executing jobId e he hphase
    rw [hjob]
    refine (kept hsm (fun a ha hreached => ?_) hheld).symm
    rcases (hundisturbed p hp a ha _ hreached).2 e he with hdone | hits
    · exact hphase hdone
    · rw [hawaits] at hits
      cases hits
  have hwaiting : ∀ q ∈ s.log.drop (s.lastApplied + 1), ∀ origin, q.origin = some origin →
      q.entry.Returns ∧ sm.Assigned origin.jobId (· = origin.token) := by
    intro q hq origin horigin
    obtain ⟨hreturns, hheld⟩ := h.pending q (by rw [hdrop]; exact List.mem_cons_of_mem _ hq) origin
      horigin
    refine ⟨hreturns, (kept hsm (fun a ha hreached => ?_) hheld).1⟩
    exact (hundisturbed p hp a ha _ hreached).1 q hq (by rw [horigin]; rfl)
  unfold OrchestratorState.applyNext
  rw [hout]
  cases result with
  | error err =>
    -- only entries that no execution has proposed raise
    have hforeign : p.origin = none := by
      rw [Option.eq_none_iff_forall_not_mem]
      intro origin horigin
      obtain ⟨result, hresult⟩ := (h.pending p (by rw [hdrop]; simp) origin horigin).1 cfg.clock
        s.stateMachine
      rw [hout] at hresult
      cases hresult
    refine ⟨h.bounded, ?_, ?_⟩
    · intro jobId e' he' hphase
      rw [Dict.get?_mapValues] at he'
      obtain ⟨e, he, rfl⟩ := Option.map_eq_some_iff.mp he'
      exact hworking jobId e he hphase (awaits_of_origin_none hforeign)
    · intro q hq origin horigin
      rw [hdrop] at hq
      rcases List.mem_cons.mp hq with rfl | hq
      · cases hforeign.symm.trans horigin
      · exact hwaiting q hq origin horigin
  | ok value =>
    refine ⟨hbound, ?_, hwaiting⟩
    intro jobId e' he' hphase
    rw [Dict.get?_mapValues, Dict.get?_mapValues] at he'
    obtain ⟨e₁, he₁, rfl⟩ := Option.map_eq_some_iff.mp he'
    obtain ⟨e, he, rfl⟩ := Option.map_eq_some_iff.mp he₁
    obtain ⟨hsame, hother⟩ := resolve_phase hphase
    rw [hsame] at hphase ⊢
    exact hworking jobId e he hphase (awaits_of_phase hother)

theorem Ok.step (h : s.Ok) {ev : OrchestratorEvent} (hundisturbed : s.Undisturbed cfg ev) : (s.step cfg ev).Ok := by
  cases ev with
  | command command now => exact h.propose_none command now
  | schedule workers | reap now workers =>
    rw [OrchestratorState.step]
    split
    · exact h.with_leader _
    · exact h
  | next now => exact h.nextJob now
  | work => exact h.workRound
  | execution jobId action =>
    rw [OrchestratorState.step]
    split
    · exact h
    · rename_i e he
      exact h.execute he action
  | apply =>
    rw [OrchestratorState.step]
    split
    · exact h
    · rename_i p hp
      exact h.applyNext hp hundisturbed

theorem Ok.fenced (h : s.Ok) (ev : OrchestratorEvent) : s.Fenced cfg ev := by
  intro p hp origin horigin _
  cases ev with
  | apply =>
    have hmem : p ∈ s.log.drop s.lastApplied := by
      rw [List.mem_iff_getElem?]
      exact ⟨0, by rw [List.getElem?_drop]; exact hp⟩
    exact (h.pending p hmem origin horigin).2
  | _ => cases hp

end step

theorem ok_init : init.Ok where
  bounded := le_rfl
  executing := fun _ _ he => by cases he
  pending := fun _ hp => by cases hp

/-- **Executions are fenced** in every run that disturbs none of them. -/
theorem executions_fenced (cfg : OrchestratorConfig) (events : List OrchestratorEvent)
    (hundisturbed : Along (step cfg) (Undisturbed cfg) init events) :
    Along (step cfg) (Fenced cfg) init events :=
  Along.of_invariant (fun _ ev hok hcond => ⟨hok.fenced ev, hok.step hcond⟩) ok_init hundisturbed

def node : OrchestratorConfig := ⟨"n", 1, fun _ => 0, fun _ => "60.0"⟩

def submitJ : Command :=
  { commandType := .jobSubmit, key := some "j", value := .none, clientId := some "n",
    fencingToken := none, extraData := [("job_id", .str "j")] }

def started : List OrchestratorEvent :=
  [.command submitJ 1, .apply, .schedule ["n"], .next 2, .apply, .next 2, .work, .execution "j" .start]

def finished : List OrchestratorEvent := started ++ [.execution "j" (.succeed "00" 3), .apply]

theorem finished_fenced :
    ((run (step node) init finished).stateMachine.jobs.get? "j").map (·.status) = some .completed ∧
    Along (step node) (Fenced node) init finished :=
  ⟨by decide +kernel, executions_fenced node finished (by decide +kernel)⟩

/-- Before the execution ends, its job expires, is reported as failed and assigned again. -/
def reassigned : List OrchestratorEvent :=
  started ++ [.reap 100 ["n"], .next 100, .apply, .next 100, .schedule ["n"], .next 101, .apply,
    .execution "j" (.succeed "00" 102)]

/-- **A stale execution completes its job**: it started under token 1, and its result is taken although
the job has been assigned again under token 2. -/
theorem reassigned_completed_by_stale :
    ((run (step node) init reassigned).due? .apply).bind (·.origin) = some ⟨"j", some 1⟩ ∧
    ((run (step node) init reassigned).stateMachine.jobs.get? "j").map
        (fun job => (job.status, job.fencingToken)) = some (.assigned, some 2) ∧
    (((run (step node) init reassigned).step node .apply).stateMachine.jobs.get? "j").map (·.status) =
      some .completed ∧
    ¬ Along (step node) (Fenced node) init (reassigned ++ [.apply]) := by
  have horigin : ((run (step node) init reassigned).due? .apply).bind (·.origin) =
      some ⟨"j", some 1⟩ := by decide +kernel
  have hbefore : ((run (step node) init reassigned).stateMachine.jobs.get? "j").map
      (fun job => (job.status, job.fencingToken)) = some (.assigned, some 2) := by decide +kernel
  have hafter : (((run (step node) init reassigned).step node .apply).stateMachine.jobs.get? "j").map
      (·.status) = some .completed := by decide +kernel
  refine ⟨horigin, hbefore, hafter, fun hfenced => ?_⟩
  obtain ⟨p, hp, hfrom⟩ := Option.bind_eq_some_iff.mp horigin
  obtain ⟨job, hfound, -, htoken⟩ := hfenced.last p hp _ hfrom fun hsame => by
    rw [hsame] at hafter
    obtain ⟨job, hfound, hstatus⟩ := Option.map_eq_some_iff.mp hafter
    rw [hfound] at hbefore
    simp [hstatus] at hbefore
  rw [hfound] at hbefore
  simp [htoken] at hbefore

end OrchestratorState

end MeshWeaver
