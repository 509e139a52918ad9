import MeshWeaver.Lib.Run
import MeshWeaver.Raft.Engine
import MeshWeaver.Raft.Reconcile
import MeshWeaver.Raft.StateMachineFacts

/-!
# Batches

A batch, nested batches included, comes to the list of its single commands (`unfoldWithin`), run up to the first that
raises. A single command that raises changes nothing, but what the commands before it have written stays. So a batch is
atomic exactly when the commands before the first one that raises have changed nothing between them (`atomic_iff`). An
entry that raises is not marked as applied, and the next commit runs the first half of its batch again
(`batch_doubled`).
-/

namespace MeshWeaver

open Lib RaftReplicationEngine

namespace ReplicatedStateMachine

variable {clock : Clock} {entry : LogEntry} {sm sm' : ReplicatedStateMachine} {res : CommandResult}

/-- Everything but the counter of calls: store, leases, jobs, members and fencing counter. -/
def contents (sm : ReplicatedStateMachine) : ReplicatedStateMachine := { sm with commandsApplied := 0 }

@[simp] theorem contents_count (sm : ReplicatedStateMachine) (n : Int) :
    contents { sm with commandsApplied := n } = sm.contents := rfl

/-! ### Single commands that raise -/

/-- If the call raises, the machine is `sm`. -/
def RaisesAt (sm : ReplicatedStateMachine) (out : Outcome) : Prop :=
  ∀ e, out.2 = .error e → out.1 = sm

theorem RaisesAt.of_ok {out : Outcome} (h : out.2 = .ok res) : RaisesAt sm out :=
  fun e he => by rw [h] at he; cases he

theorem RaisesAt.withArg {α : Type} {x : Except PyError α} {f : α → Outcome} (h : ∀ a, RaisesAt sm (f a)) :
    RaisesAt sm (withArg sm x f) := by
  cases x with
  | error e => exact fun _ _ => rfl
  | ok a => exact h a

/-- **A single command that raises changes nothing**, but it is counted. -/
theorem raisesAt_applyWithin_zero (clock : Clock) (entry : LogEntry) (sm : ReplicatedStateMachine) :
    RaisesAt sm.counted (applyWithin 0 clock entry sm) := by
  rw [applyWithin]
  split
  case h_1 | h_2 | h_3 => split <;> exact .of_ok rfl
  case h_4 =>
    unfold applyCas
    split
    · exact .of_ok rfl
    · refine .withArg fun expected => ?_
      dsimp only
      split_ifs <;> exact .of_ok rfl
  case h_5 =>
    unfold applyIncrement
    split
    · exact .of_ok rfl
    · exact .withArg fun delta => .withArg fun current => .of_ok rfl
  case h_6 =>
    refine .withArg fun ttlSeconds => ?_
    split
    · exact .of_ok rfl
    · split_ifs <;> exact .of_ok rfl
  case h_7 =>
    refine .withArg fun fencingToken => ?_
    split
    · exact .of_ok rfl
    · dsimp only
      split_ifs <;> exact .of_ok rfl
  case h_8 => exact fun _ _ => rfl
  case h_9 => exact .withArg fun job => .of_ok rfl
  case h_10 =>
    refine .withArg fun jobId => .withArg fun workerId => ?_
    split <;> exact .of_ok rfl
  case h_11 =>
    refine .withArg fun jobId => .withArg fun token => .withArg fun result => ?_
    split
    · exact .of_ok rfl
    · dsimp only
      split_ifs <;> exact .of_ok rfl
  case h_12 =>
    refine .withArg fun jobId => .withArg fun errorMsg => ?_
    split <;> exact .of_ok rfl
  case h_13 =>
    refine .withArg fun jobId => ?_
    split
    · exact .of_ok rfl
    · split_ifs <;> exact .of_ok rfl
  case h_14 => exact .withArg fun action => .of_ok rfl
  all_goals exact .of_ok rfl

/-! ### The single commands of a batch -/

/-- What a batch does at one point: a single command, called when `count` commands have been applied, or
something that raises before a command is reached. -/
inductive BatchStep where
  | single (count : Int) (entry : LogEntry)
  | fails (e : PyError)

/-- A step on the contents of a machine; `none` if it raises. -/
def BatchStep.run (clock : Clock) (sm : ReplicatedStateMachine) : BatchStep → Option ReplicatedStateMachine
  | .fails _ => none
  | .single count entry =>
    match applyCommand clock entry { sm with commandsApplied := count } with
    | (sm', .ok _) => some sm'.contents
    | (_, .error _) => none

def unfoldOps (unfold : Int → LogEntry → List BatchStep × Int) (clock : Clock) :
    Int → List Value → List BatchStep × Int
  | count, [] => ([], count)
  | count, op :: ops =>
    match subEntry (clock count) op with
    | .error e => ([.fails e], count)
    | .ok sub =>
      let first := unfold count sub
      let rest := unfoldOps unfold clock first.2 ops
      (first.1 ++ rest.1, rest.2)

/-- The steps of a command: its own, or those of its batch. -/
def unfoldWithin : Nat → Clock → Int → LogEntry → List BatchStep × Int
  | fuel, clock, count, entry =>
    if entry.commandType = .batch then
      match fuel with
      | 0 => ([.fails .recursionError], count + 1)
      | fuel + 1 =>
        match entry.operations with
        | .error e => ([.fails e], count + 1)
        | .ok ops => unfoldOps (unfoldWithin fuel clock) clock (count + 1) ops
    else ([.single count entry], count + 1)

/-- The single commands that `apply_command` makes of an entry, in order. -/
def batchSteps (clock : Clock) (entry : LogEntry) (sm : ReplicatedStateMachine) : List BatchStep :=
  (unfoldWithin (entry.extraData.depth + 1) clock sm.commandsApplied entry).1

/-- The steps up to the first that raises lead to the machine of the outcome. -/
def Follows (clock : Clock) (unfolded : List BatchStep × Int) (sm : ReplicatedStateMachine) (out : Outcome) :
    Prop :=
  match out.2 with
  | .ok _ => unfolded.1.foldlM (BatchStep.run clock) sm.contents = some out.1.contents ∧
    out.1.commandsApplied = unfolded.2
  | .error _ => ∃ before step after, unfolded.1 = before ++ step :: after ∧
    before.foldlM (BatchStep.run clock) sm.contents = some out.1.contents ∧
    step.run clock out.1.contents = none

theorem BatchStep.run_single (h : entry.commandType ≠ .batch) (clock : Clock) (sm : ReplicatedStateMachine) :
    (BatchStep.single sm.commandsApplied entry).run clock sm.contents =
      match applyWithin 0 clock entry sm with
      | (sm', .ok _) => some sm'.contents
      | (_, .error _) => none := by
  rw [← applyWithin_of_ne_batch h (entry.extraData.depth + 1)]
  rfl

theorem follows_single (h : entry.commandType ≠ .batch) (fuel : Nat) (clock : Clock) (sm : ReplicatedStateMachine) :
    Follows clock ([.single sm.commandsApplied entry], sm.commandsApplied + 1) sm
      (applyWithin fuel clock entry sm) := by
  have hrun := BatchStep.run_single h clock sm
  have hraises := raisesAt_applyWithin_zero clock entry sm
  have hcount := applyWithin_zero_commandsApplied entry sm clock
  rw [applyWithin_of_ne_batch h]
  rcases hout : applyWithin 0 clock entry sm with ⟨sm', e | res⟩ <;> rw [hout] at hrun hraises hcount
  · have hcounted : sm' = sm.counted := hraises e rfl
    have hsame : sm'.contents = sm.contents := (congrArg contents hcounted).trans (contents_count sm _)
    exact ⟨[], .single sm.commandsApplied entry, [], rfl, by rw [hsame]; rfl, by rw [hsame]; exact hrun⟩
  · refine ⟨?_, hcount⟩
    rw [List.foldlM_cons, hrun]
    rfl

theorem follows_ops {fuel : Nat}
    (h : ∀ sub sm, Follows clock (unfoldWithin fuel clock sm.commandsApplied sub) sm
      (applyWithin fuel clock sub sm)) (ops : List Value) :
    ∀ (results : List CommandResult) (sm : ReplicatedStateMachine),
      Follows clock (unfoldOps (unfoldWithin fuel clock) clock sm.commandsApplied ops) sm
        (applyOps (applyWithin fuel clock) clock ops results sm) := by
  induction ops with
  | nil => exact fun results sm => ⟨rfl, rfl⟩
  | cons op ops ih =>
    intro results sm
    rw [applyOps_cons, unfoldOps]
    cases hsub : subEntry (clock sm.commandsApplied) op with
    | error e =>
      dsimp only
      split <;> exact ⟨[], .fails e, [], rfl, rfl, rfl⟩
    | ok sub =>
      have hone := h sub sm
      dsimp only
      rcases hout : applyWithin fuel clock sub sm with ⟨sm₁, e | res⟩ <;> rw [hout] at hone
      · obtain ⟨before, step, after, hsteps, hbefore, hstep⟩ := hone
        refine ⟨before, step, after ++ (unfoldOps (unfoldWithin fuel clock) clock
          (unfoldWithin fuel clock sm.commandsApplied sub).2 ops).1, ?_, hbefore, hstep⟩
        rw [hsteps, List.append_assoc, List.cons_append]
      · obtain ⟨hsteps, hcount⟩ := hone
        have hrest := ih (results ++ [res]) sm₁
        dsimp only at hsteps hcount ⊢
        rw [← hcount]
        rcases hres : applyOps (applyWithin fuel clock) clock ops (results ++ [res]) sm₁ with ⟨sm₂, e | rs⟩ <;>
          rw [hres] at hrest
        · obtain ⟨before, step, after, hlist, hbefore, hstep⟩ := hrest
          refine ⟨(unfoldWithin fuel clock sm.commandsApplied sub).1 ++ before, step, after,
            by rw [hlist, List.append_assoc], ?_, hstep⟩
          rwa [List.foldlM_append, hsteps]
        · refine ⟨?_, hrest.2⟩
          rw [List.foldlM_append, hsteps]
          exact hrest.1

/-- **A command comes to its single commands**, run up to the first that raises. -/
theorem unfoldWithin_follows (fuel : Nat) (clock : Clock) : ∀ (entry : LogEntry) (sm : ReplicatedStateMachine),
    Follows clock (unfoldWithin fuel clock sm.commandsApplied entry) sm (applyWithin fuel clock entry sm) := by
  induction fuel with
  | zero =>
    intro entry sm
    rw [unfoldWithin]
    split_ifs with hb
    · have hout : applyWithin 0 clock entry sm = (sm.counted, .error .recursionError) := by
        simp only [applyWithin, hb]
        rfl
      rw [hout]
      exact ⟨[], .fails .recursionError, [], rfl, rfl, rfl⟩
    · exact follows_single hb 0 clock sm
  | succ fuel ih =>
    intro entry sm
    rw [unfoldWithin]
    split_ifs with hb
    · rw [applyWithin_batch hb]
      cases entry.operations with
      | error e => exact ⟨[], .fails e, [], rfl, rfl, rfl⟩
      | ok ops => exact follows_ops ih ops [] sm.counted
    · exact follows_single hb (fuel + 1) clock sm

/-! ### Atomicity -/

/-- The operations are decoded and applied one after the other, and none raises. -/
inductive AppliedInOrder (clock : Clock) :
    List Value → ReplicatedStateMachine → ReplicatedStateMachine → List CommandResult → Prop
  | nil (sm : ReplicatedStateMachine) : AppliedInOrder clock [] sm sm []
  | cons {op : Value} {ops : List Value} {sub : LogEntry} {sm sm₁ sm' : ReplicatedStateMachine}
      {res : CommandResult} {results : List CommandResult}
      (hsub : subEntry (clock sm.commandsApplied) op = .ok sub)
      (hone : sm.applyCommand clock sub = (sm₁, .ok res))
      (hrest : AppliedInOrder clock ops sm₁ sm' results) :
      AppliedInOrder clock (op :: ops) sm sm' (res :: results)

/-- **A batch is atomic**: its sub-commands are all applied in order and their results returned, or the
call raises and leaves the contents as they were, so that it makes no difference to a later attempt. -/
def Atomic (clock : Clock) (entry : LogEntry) (sm : ReplicatedStateMachine) : Prop :=
  match sm.applyCommand clock entry with
  | (sm', .ok res) => ∃ ops results, entry.operations = .ok ops ∧ res = .results results ∧
    AppliedInOrder clock ops sm.counted sm' results
  | (sm', .error _) => sm'.contents = sm.contents

theorem appliedInOrder_of_applyOps {fuel : Nat} {ops : List Value} (hdepth : ∀ op ∈ ops, op.depth < fuel)
    {results : List CommandResult} (h : applyOps (applyWithin fuel clock) clock ops results sm = (sm', .ok res)) :
    ∃ rs, res = .results (results ++ rs) ∧ AppliedInOrder clock ops sm sm' rs := by
  induction ops generalizing results sm with
  | nil =>
    cases h
    exact ⟨[], by rw [List.append_nil], .nil _⟩
  | cons op ops ih =>
    rw [applyOps_cons] at h
    cases hsub : subEntry (clock sm.commandsApplied) op with
    | error e =>
      rw [hsub] at h
      cases op <;> cases h
    | ok sub =>
      have hlt := (depth_subEntry_le hsub).trans_lt (hdepth op List.mem_cons_self)
      rw [hsub] at h
      dsimp only at h
      rw [applyWithin_of_depth_lt hlt (Nat.lt_succ_self _)] at h
      rcases hone : applyWithin (sub.extraData.depth + 1) clock sub sm with ⟨sm₁, e | r⟩ <;> rw [hone] at h
      · cases h
      · obtain ⟨rs, rfl, hrest⟩ := ih (fun op hop => hdepth op (List.mem_cons_of_mem _ hop)) h
        exact ⟨r :: rs, by rw [List.append_assoc, List.singleton_append], .cons hsub hone hrest⟩

theorem appliedInOrder_of_ok (hbatch : entry.commandType = .batch)
    (h : sm.applyCommand clock entry = (sm', .ok res)) :
    ∃ ops results, entry.operations = .ok ops ∧ res = .results results ∧
      AppliedInOrder clock ops sm.counted sm' results := by
  rw [applyCommand, applyWithin_batch hbatch] at h
  cases hops : entry.operations with
  | error e =>
    rw [hops] at h
    cases h
  | ok ops =>
    rw [hops] at h
    obtain ⟨rs, hres, happlied⟩ :=
      appliedInOrder_of_applyOps (fun op hop => depth_lt_of_mem_operations hops hop) h
    exact ⟨ops, rs, rfl, hres, happlied⟩

/-- **When a batch is atomic**: whenever one of its single commands raises, those before it have changed
nothing between them. -/
theorem atomic_iff (clock : Clock) (entry : LogEntry) (hbatch : entry.commandType = .batch)
    (sm : ReplicatedStateMachine) :
    Atomic clock entry sm ↔ ∀ before step after reached, batchSteps clock entry sm = before ++ step :: after →
      before.foldlM (BatchStep.run clock) sm.contents = some reached → step.run clock reached = none →
      reached = sm.contents := by
  have hfollows := unfoldWithin_follows (entry.extraData.depth + 1) clock entry sm
  rw [Atomic, batchSteps]
  rcases hout : sm.applyCommand clock entry with ⟨sm', e | res⟩
  · rw [applyCommand] at hout
    rw [hout] at hfollows
    obtain ⟨before, step, after, hsteps, hbefore, hstep⟩ := hfollows
    constructor
    · intro hsame before' step' after' reached hsteps' hbefore' hstep'
      exact (Lib.foldlM_first_failure (hsteps'.symm.trans hsteps) hbefore' hstep' hbefore hstep).trans hsame
    · intro hno
      exact hno before step after sm'.contents hsteps hbefore hstep
  · refine iff_of_true (appliedInOrder_of_ok hbatch hout) ?_
    intro before step after reached hsteps hbefore hstep
    -- all the steps are run, so none of them raises
    rw [applyCommand] at hout
    rw [hout] at hfollows
    have hall := hfollows.1
    rw [hsteps, List.foldlM_append, hbefore] at hall
    rw [Option.bind_eq_bind, Option.bind_some, List.foldlM_cons, hstep] at hall
    cases hall

def batchOp (commandType key : String) (extra : List (String × Value)) : Value :=
  .dict [("index", .int 1), ("term", .int 1), ("command_type", .str commandType), ("key", .str key),
    ("extra_data", .dict extra)]

def batchOf (index : Int) (ops : List Value) : LogEntry :=
  { writeEntry index 1 "" with commandType := .batch, extraData := .dict [("operations", .list ops)] }

/-- Nothing but a read comes before the increment that raises. -/
theorem atomic_read_first :
    Atomic (fun _ => 0) (batchOf 1 [batchOp "GET" "x" [], batchOp "INCREMENT" "x" [("delta", .str "one")]])
      .empty := by
  refine (atomic_iff _ _ rfl _).mpr fun before step after reached hsteps hbefore _ => ?_
  have hlength := congrArg List.length hsteps
  rcases before with _ | ⟨first, _ | ⟨second, before⟩⟩
  · cases hbefore
    rfl
  · cases hsteps
    cases hbefore
    rfl
  · rw [List.cons_append, List.cons_append, List.length_cons, List.length_cons, List.length_append,
      List.length_cons] at hlength
    have htwo : (batchSteps (fun _ => 0) (batchOf 1 [batchOp "GET" "x" [],
      batchOp "INCREMENT" "x" [("delta", .str "one")]]) .empty).length = 2 := rfl
    omega

/-- The first increment is done, the second raises. -/
def halfBatch : LogEntry :=
  batchOf 1 [batchOp "INCREMENT" "x" [], batchOp "INCREMENT" "x" [("delta", .str "one")]]

def receiveCommitted (prev : Int) (entry : LogEntry) : NodeEvent :=
  .handle ⟨1, .follower⟩ []
    (.receive ⟨⟨"a", 7000⟩, ⟨"b", 7000⟩, "a", .appendEntriesRequest
      { term := 1, leaderId := "a", prevLogIndex := prev, prevLogTerm := prev, entries := [entry],
        leaderCommit := prev + 1 }⟩ 1 fun _ => 0)

def halfThenNext : List NodeEvent :=
  [receiveCommitted 0 halfBatch, receiveCommitted 1 (writeEntry 2 1 "y")]

/-- **A batch that raises keeps its first half**, and the next commit runs it again: the entry counts as
not applied, and `x` has been incremented twice. -/
theorem batch_doubled :
    ¬ Atomic (fun _ => 0) halfBatch .empty ∧
      ((ReplicatedStateMachine.empty.applyCommand (fun _ => 0) halfBatch).1.get "x" = some (.int 1)) ∧
      (run nodeStep (.init "b") halfThenNext).log.lastApplied = 0 ∧
      (run nodeStep (.init "b") halfThenNext).stateMachine.get "x" =
        some (.int 2) := by
  refine ⟨fun h => ?_, rfl, rfl, rfl⟩
  have hx := congrArg (fun sm : ReplicatedStateMachine => sm.get "x") h
  cases hx

end ReplicatedStateMachine

end MeshWeaver
