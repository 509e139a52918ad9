import MeshWeaver.Raft.Leases

/-!
# Two replicas that apply the same commands

Two replicas whose clocks differ end in the same state with the same results, if no lock or job command lacks a
timestamp (`replicas_agree`). The operations of a batch may lack one: they are decoded with `time.time()` as the default
(`replicas_diverge`). A replica restored from a snapshot cannot be told from the original exactly when no lease had run
out at the time of the export (`restored_indistinguishable_iff`).
-/

namespace MeshWeaver

open Lib

namespace ReplicatedStateMachine

theorem applyAll_congr_clock {entries : List LogEntry} (h : ∀ e ∈ entries, ClockFree e)
    (clock clock' : Clock) (sm : ReplicatedStateMachine) :
    applyAll clock entries sm = applyAll clock' entries sm := by
  induction entries generalizing sm with
  | nil => rfl
  | cons e entries ih =>
    have he := (h e List.mem_cons_self).applyCommand_eq clock clock' sm
    rw [applyAll, applyAll, he]
    dsimp only
    rw [ih (fun e he => h e (List.mem_cons_of_mem _ he))]

/-- **Replicas agree** on every list of commands in which no lock or job command lacks a timestamp,
at any depth of nesting, whatever their clocks show. -/
theorem replicas_agree (entries : List LogEntry) (h : ∀ e ∈ entries, ClockFree e)
    (clock clock' : Clock) : applyAll clock entries empty = applyAll clock' entries empty :=
  applyAll_congr_clock h clock clock' empty

def acquireOperation : Value :=
  .dict [("index", .int 0), ("term", .int 0), ("command_type", .str "LOCK_ACQUIRE"),
    ("key", .str "r"), ("client_id", .str "A"), ("extra_data", .dict [("ttl_seconds", .int 10)])]

def unstamped : List LogEntry :=
  [{ batchEntry 1 [] with extraData := .dict [("operations", .list [acquireOperation])] },
    lockEntry .lockAcquire "B" 50]

theorem contested_agree :
    applyAll (fun _ => 1) contested empty = applyAll (fun _ => 100) contested empty :=
  replicas_agree contested (by decide +kernel) _ _

/-- On one replica `A`'s lease has run out when `B` asks, on the other it has not. -/
theorem replicas_diverge :
    (∀ e ∈ unstamped, e.timestamp ≠ 0) ∧
      ((applyAll (fun _ => 1) unstamped empty).1.locks.get? "r").map DistributedLock.holderId =
        some "B" ∧
      ((applyAll (fun _ => 100) unstamped empty).1.locks.get? "r").map DistributedLock.holderId =
        some "A" := by
  decide +kernel

/-! ### Restoring a snapshot -/

def holders (sm : ReplicatedStateMachine) (resource : String) : Option String :=
  (sm.locks.get? resource).map DistributedLock.holderId

/-- The same results, and the same state as far as clients can see it. -/
structure SameOutcome (a b : ReplicatedStateMachine × List (Except PyError CommandResult)) :
    Prop where
  results : a.2 = b.2
  state : a.1.state = b.1.state
  holders : a.1.holders = b.1.holders
  jobs : a.1.jobs = b.1.jobs
  counter : a.1.fencingTokenCounter = b.1.fencingTokenCounter

/-- No further commands tell the machines apart, if both read the same time or no command reads it. -/
def Indistinguishable (sm sm' : ReplicatedStateMachine) : Prop :=
  ∀ (entries : List LogEntry) (clock clock' : Clock),
    (clock = clock' ∨ ∀ e ∈ entries, ClockFree e) →
      SameOutcome (applyAll clock entries sm) (applyAll clock' entries sm')

theorem Indistinguishable.refl (sm : ReplicatedStateMachine) : Indistinguishable sm sm := by
  intro entries clock clock' h
  have hsame : applyAll clock entries sm = applyAll clock' entries sm := by
    rcases h with rfl | hfree
    · rfl
    · exact applyAll_congr_clock hfree clock clock' sm
  rw [hsame]
  exact ⟨rfl, rfl, rfl, rfl, rfl⟩

theorem orStr_ne_empty {a : Option String} {b : String} (hb : b ≠ "") : orStr a b ≠ "" := by
  unfold orStr
  split
  · split_ifs with h
    · exact hb
    · exact h
  · exact hb

def Named (sm : ReplicatedStateMachine) : Prop :=
  ∀ r l, sm.locks.get? r = some l → r ≠ ""

theorem named_applyAll (clock : Clock) (entries : List LogEntry) : Named (applyAll clock entries empty).1 := by
  refine (linked_historyAll clock entries empty).invariant (I := Named) ?_ ?_ ?_
  · intro sm sm' hsame h
    rwa [hsame]
  · intro a hleaf h r l hget
    by_cases hr : a.entry.resource = r
    · rw [← hr]
      exact orStr_ne_empty (by decide)
    · rw [hleaf.get?_eq hr] at hget
      exact h r l hget
  · intro r l hget
    simp [empty] at hget

def foreignRelease (resource client : String) : LogEntry :=
  { index := 1, term := 1, commandType := .lockRelease, key := some resource, value := .none,
    clientId := some client, timestamp := 1, fencingToken := none, extraData := .dict [] }

theorem applyCommand_foreignRelease (clock : Clock) (sm : ReplicatedStateMachine) {r c : String}
    (hr : r ≠ "") :
    (applyCommand clock (foreignRelease r c) sm).2 =
      truth (match sm.locks.get? r with
        | none => true
        | some l => l.holderId = c) := by
  have hres : orStr (some r) "default_resource" = r := if_neg hr
  simp only [applyCommand, foreignRelease, applyWithin, applyLockRelease, LogEntry.fencingArg, hres,
    Value.getD, Value.getKey, Dict.lookup, bind, Except.bind, pure, Except.pure, Option.getD_none,
    withArg]
  cases sm.locks.get? r with
  | none => rfl
  | some l =>
    by_cases hc : l.holderId = c
    · simp [hc]
    · simp [hc]

/-- **A restored replica cannot be told from the original** exactly when no lease had run out when
the snapshot was taken. -/
theorem restored_indistinguishable_iff (clock : Clock) (entries : List LogEntry) (now : Rat) :
    Indistinguishable (applyAll clock entries empty).1
        (importState ((applyAll clock entries empty).1.exportState now)) ↔
      ∀ lock ∈ (applyAll clock entries empty).1.locks.values, lock.isExpired now = false := by
  have hnamed := named_applyAll clock entries
  generalize (applyAll clock entries empty).1 = sm at hnamed
  constructor
  · intro h
    by_contra hno
    push Not at hno
    obtain ⟨lock, hmem, hexp⟩ := hno
    obtain ⟨r, hget⟩ := Dict.exists_get?_of_mem_values hmem
    have hgone : (importState (sm.exportState now)).locks.get? r = none := by
      rw [Option.eq_none_iff_forall_ne_some]
      intro l hl
      obtain ⟨hl, hlive⟩ := (Dict.get?_filterValues _ _ r l).mp hl
      rw [hget, Option.some.injEq] at hl
      subst hl
      simp [hexp] at hlive
    -- only the original refuses the release of a lease that is held by somebody else
    have hres := (h [foreignRelease r (lock.holderId ++ "'")] (fun _ => 0) (fun _ => 0)
      (Or.inl rfl)).results
    simp only [applyAll] at hres
    rw [applyCommand_foreignRelease _ _ (hnamed r lock hget),
      applyCommand_foreignRelease _ _ (hnamed r lock hget), hget, hgone] at hres
    simp only [truth, List.cons.injEq, Except.ok.injEq, CommandResult.value.injEq, Value.bool.injEq,
      decide_eq_true_eq, and_true] at hres
    simpa using congrArg String.length hres
  · intro h
    rw [importState_exportState h]
    exact Indistinguishable.refl sm

def leased : ReplicatedStateMachine :=
  (applyAll (fun _ => 0) [lockEntry .lockAcquire "A" 1] empty).1

/-- The snapshot is taken at time 20. `B`'s command, with the leader's timestamp 5, is refused by the
original and granted by the restored replica. -/
theorem restored_replica_grants :
    (applyAll (fun _ => 0) [lockEntry .lockAcquire "B" 5] leased).1.holders "r" = some "A" ∧
      (applyAll (fun _ => 0) [lockEntry .lockAcquire "B" 5]
        (importState (leased.exportState 20))).1.holders "r" = some "B" := by
  decide +kernel

end ReplicatedStateMachine

end MeshWeaver
