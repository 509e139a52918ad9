import MeshWeaver.Raft.StateMachine

/-!
# What every command does to the state machine

* Nested batches never exhaust the bound on the recursion (`applyWithin_of_depth_lt`).
* A single command writes to one part of the machine only (`applyWithin_zero_writes`).
* A command that has a timestamp, and whose nested commands all have one (`Stamped`), does the same whatever
  `time.time()` returns; it is enough that those which look at the time have one (`ClockFree.applyCommand_eq`).
* Importing an export gives the machine back when no lease has expired (`importState_exportState`).
-/

namespace MeshWeaver

open Lib

theorem bind_eq_ok {ε α β : Type} {x : Except ε α} {f : α → Except ε β} {b : β} :
    x >>= f = .ok b ↔ ∃ a, x = .ok a ∧ f a = .ok b := by
  cases x <;> simp [bind, Except.bind]

theorem map_eq_ok {ε α β : Type} {x : Except ε α} {f : α → β} {b : β} :
    x.map f = .ok b ↔ ∃ a, x = .ok a ∧ f a = b := by
  cases x <;> simp [Except.map]

theorem map_bind_eq {ε α β γ : Type} (x : Except ε α) (f : α → Except ε β) (g : β → γ) :
    (x >>= f).map g = x >>= fun a => (f a).map g := by
  cases x <;> rfl

/-- The entry `_apply_batch` makes of an operation; `now` is what `time.time()` returns. -/
def subEntry (now : Rat) : Value → Except PyError LogEntry
  | .dict data => LogEntry.fromDict now data
  | .entry e => .ok e
  | _ => .error (.attributeError "object has no attribute 'command_type'")

/-- `entry.extra_data.get("operations", [])`, as the list the loop of `_apply_batch` runs over. -/
def LogEntry.operations (entry : LogEntry) : Except PyError (List Value) := do
  (← entry.extraData.getD "operations" (.list [])).iter

def LogEntry.withTimestamp (e : LogEntry) (t : Rat) : LogEntry := { e with timestamp := t }

theorem LogEntry.withTimestamp_self (e : LogEntry) : e.withTimestamp e.timestamp = e := by
  cases e
  rfl

namespace ReplicatedStateMachine

variable {clock clock' : Clock} {entry : LogEntry} {fuel : Nat} {data : List (String × Value)}

/-! ### The shape of `apply_command` -/

theorem applyWithin_of_ne_batch (h : entry.commandType ≠ .batch) (fuel : Nat) (clock : Clock)
    (sm : ReplicatedStateMachine) : applyWithin fuel clock entry sm = applyWithin 0 clock entry sm := by
  cases fuel with
  | zero => rfl
  | succ fuel =>
    simp only [applyWithin]
    split <;> first | rfl | contradiction

theorem applyWithin_batch (h : entry.commandType = .batch) (fuel : Nat) (clock : Clock)
    (sm : ReplicatedStateMachine) :
    applyWithin (fuel + 1) clock entry sm =
      withArg { sm with commandsApplied := sm.commandsApplied + 1 } entry.operations fun ops =>
        applyOps (applyWithin fuel clock) clock ops []
          { sm with commandsApplied := sm.commandsApplied + 1 } := by
  simp only [applyWithin, h]
  rfl

theorem applyOps_cons (apply : LogEntry → ReplicatedStateMachine → Outcome) (clock : Clock)
    (op : Value) (ops : List Value) (results : List CommandResult) (sm : ReplicatedStateMachine) :
    applyOps apply clock (op :: ops) results sm =
      match subEntry (clock sm.commandsApplied) op with
      | .error e =>
        match op with
        | .dict _ => (sm, .error e)
        | _ => ({ sm with commandsApplied := sm.commandsApplied + 1 }, .error e)
      | .ok sub =>
        match apply sub sm with
        | (sm', .error e) => (sm', .error e)
        | (sm', .ok res) => applyOps apply clock ops (results ++ [res]) sm' := by
  cases op <;> rfl

theorem applyOps_congr {apply apply' : LogEntry → ReplicatedStateMachine → Outcome} {ops : List Value}
    (h : ∀ op ∈ ops, ∀ n, (∃ e, subEntry (clock n) op = .error e ∧ subEntry (clock' n) op = .error e) ∨
      ∃ sub sub', subEntry (clock n) op = .ok sub ∧ subEntry (clock' n) op = .ok sub' ∧
        apply sub = apply' sub')
    (results : List CommandResult) (sm : ReplicatedStateMachine) :
    applyOps apply clock ops results sm = applyOps apply' clock' ops results sm := by
  induction ops generalizing results sm with
  | nil => rfl
  | cons op ops ih =>
    rw [applyOps_cons, applyOps_cons]
    rcases h op List.mem_cons_self sm.commandsApplied with ⟨e, he, he'⟩ | ⟨sub, sub', hs, hs', happly⟩
    · rw [he, he']
    · rw [hs, hs']
      dsimp only
      rw [happly]
      rcases apply' sub' sm with ⟨sm', out⟩
      cases out with
      | error e => rfl
      | ok res => exact ih (fun op hop => h op (List.mem_cons_of_mem _ hop)) _ _

/-! ### The bound on the recursion -/

theorem depth_lt_of_mem_operations {ops : List Value} (h : entry.operations = .ok ops) {op : Value}
    (hop : op ∈ ops) : op.depth < entry.extraData.depth := by
  obtain ⟨v, hv, hiter⟩ := bind_eq_ok.mp h
  obtain ⟨found, hget, hdefault⟩ := bind_eq_ok.mp hv
  cases hx : entry.extraData with
  | dict items =>
    rw [hx] at hget
    simp only [Value.getKey, Except.ok.injEq] at hget
    simp only [pure, Except.pure, Except.ok.injEq] at hdefault
    rw [Value.depth]
    subst hget
    cases v with
    | list xs =>
      simp only [Value.iter, Except.ok.injEq] at hiter
      subst hiter
      have hmem := Value.depth_le_depthList hop
      cases hfound : Dict.lookup "operations" items with
      | none =>
        simp only [hfound, Option.getD_none, Value.list.injEq] at hdefault
        simp [← hdefault] at hop
      | some w =>
        have hw := Value.depth_lookup_le hfound
        simp only [hfound, Option.getD_some] at hdefault
        rw [hdefault, Value.depth] at hw
        omega
    | dict _ | str _ =>
      -- the loop runs over strings
      simp only [Value.iter, Except.ok.injEq] at hiter
      subst hiter
      obtain ⟨x, -, rfl⟩ := List.mem_map.mp hop
      simp [Value.depth]
    | _ => simp [Value.iter] at hiter
  | _ => simp [hx, Value.getKey] at hget

theorem extraData_fromDict {now : Rat} {e : LogEntry} (h : LogEntry.fromDict now data = .ok e) :
    e.extraData = (Dict.lookup "extra_data" data).getD (.dict []) := by
  simp only [LogEntry.fromDict, bind_eq_ok] at h
  obtain ⟨_, -, _, -, _, -, _, -, _, -, _, -, _, -, h⟩ := h
  split at h
  · simp only [bind, Except.bind, pure, Except.pure, Except.ok.injEq] at h
    rw [← h]
  · obtain ⟨_, -, h⟩ := bind_eq_ok.mp h
    simp only [bind, Except.bind, pure, Except.pure, Except.ok.injEq] at h
    rw [← h]

theorem depth_subEntry_le {now : Rat} {op : Value} {sub : LogEntry}
    (h : subEntry now op = .ok sub) : sub.extraData.depth ≤ op.depth := by
  cases op with
  | dict data =>
    rw [extraData_fromDict h, Value.depth]
    cases hfound : Dict.lookup "extra_data" data with
    | none => simp [Value.depth, Value.depthItems]
    | some v =>
      have := Value.depth_lookup_le hfound
      simp only [Option.getD_some]
      omega
  | entry e =>
    simp only [subEntry, Except.ok.injEq] at h
    subst h
    cases e
    exact Nat.le_succ _
  | _ => simp [subEntry] at h

/-- **The recursion is never cut short**: any bound above the depth of `extra_data` gives the same
result, so the one `applyCommand` takes is no restriction. -/
theorem applyWithin_of_depth_lt {fuel fuel' : Nat} (h : entry.extraData.depth < fuel)
    (h' : entry.extraData.depth < fuel') (clock : Clock) :
    applyWithin fuel clock entry = applyWithin fuel' clock entry := by
  induction fuel generalizing fuel' entry with
  | zero => omega
  | succ fuel ih =>
    obtain ⟨fuel', rfl⟩ : ∃ n, fuel' = n + 1 := ⟨fuel' - 1, by omega⟩
    funext sm
    by_cases hb : entry.commandType = .batch
    · rw [applyWithin_batch hb, applyWithin_batch hb]
      cases hops : entry.operations with
      | error e => rfl
      | ok ops =>
        refine applyOps_congr (fun op hop n => ?_) _ _
        cases hsub : subEntry (clock n) op with
        | error e => exact Or.inl ⟨e, rfl, rfl⟩
        | ok sub =>
          have hlt := depth_lt_of_mem_operations hops hop
          have hle := depth_subEntry_le hsub
          exact Or.inr ⟨sub, sub, rfl, rfl, ih (by omega) (by omega)⟩
    · rw [applyWithin_of_ne_batch hb, applyWithin_of_ne_batch hb (fuel' + 1)]

/-! ### What each command writes -/

section Writes

variable (now : Rat) (entry : LogEntry) (sm : ReplicatedStateMachine)

/-- Nothing but the key/value store and the members has changed. -/
def OnlyKv (sm' : ReplicatedStateMachine) : Prop :=
  sm' = { sm with state := sm'.state, clusterMembers := sm'.clusterMembers }

def OnlyLocks (sm' : ReplicatedStateMachine) : Prop :=
  sm' = { sm with locks := sm'.locks, fencingTokenCounter := sm'.fencingTokenCounter }

def OnlyJobs (sm' : ReplicatedStateMachine) : Prop := sm' = { sm with jobs := sm'.jobs }

def OnlyAssigned (sm' : ReplicatedStateMachine) : Prop :=
  sm' = { sm with jobs := sm'.jobs, fencingTokenCounter := sm'.fencingTokenCounter }

theorem withArg_fst {α : Type} {x : Except PyError α} {f : α → Outcome}
    {P : ReplicatedStateMachine → Prop} (hsm : P sm) (hf : ∀ a, P (f a).1) : P (withArg sm x f).1 := by
  cases x with
  | error e => exact hsm
  | ok a => exact hf a

theorem applyCas_writes : OnlyKv sm (applyCas entry sm).1 := by
  unfold applyCas
  split
  · rfl
  · apply withArg_fst (P := OnlyKv sm) sm rfl
    intro expected
    dsimp only
    split_ifs <;> rfl

theorem applyIncrement_writes : OnlyKv sm (applyIncrement entry sm).1 := by
  unfold applyIncrement
  split
  · rfl
  · apply withArg_fst (P := OnlyKv sm) sm rfl
    intro delta
    apply withArg_fst (P := OnlyKv sm) sm rfl
    exact fun _ => rfl

theorem applyMembershipChange_writes : OnlyKv sm (applyMembershipChange entry sm).1 := by
  apply withArg_fst (P := OnlyKv sm) sm rfl
  exact fun _ => rfl

theorem applyLockAcquire_writes : OnlyLocks sm (applyLockAcquire now entry sm).1 := by
  apply withArg_fst (P := OnlyLocks sm) sm rfl
  intro ttlSeconds
  split
  · rfl
  · split_ifs <;> rfl

theorem applyLockRelease_writes : OnlyLocks sm (applyLockRelease entry sm).1 := by
  apply withArg_fst (P := OnlyLocks sm) sm rfl
  intro fencingToken
  split
  · rfl
  · dsimp only
    split_ifs <;> rfl

theorem applyJobSubmit_writes : OnlyJobs sm (applyJobSubmit now entry sm).1 := by
  apply withArg_fst (P := OnlyJobs sm) sm rfl
  exact fun _ => rfl

theorem applyJobAssign_writes : OnlyAssigned sm (applyJobAssign now entry sm).1 := by
  apply withArg_fst (P := OnlyAssigned sm) sm rfl
  intro jobId
  apply withArg_fst (P := OnlyAssigned sm) sm rfl
  intro workerId
  split <;> rfl

theorem applyJobComplete_writes : OnlyJobs sm (applyJobComplete now entry sm).1 := by
  apply withArg_fst (P := OnlyJobs sm) sm rfl
  intro jobId
  apply withArg_fst (P := OnlyJobs sm) sm rfl
  intro fencingToken
  apply withArg_fst (P := OnlyJobs sm) sm rfl
  intro resultBytes
  split
  · rfl
  · dsimp only
    split_ifs <;> rfl

theorem applyJobFail_writes : OnlyJobs sm (applyJobFail now entry sm).1 := by
  apply withArg_fst (P := OnlyJobs sm) sm rfl
  intro jobId
  apply withArg_fst (P := OnlyJobs sm) sm rfl
  intro errorMsg
  split <;> rfl

theorem applyJobCancel_writes : OnlyJobs sm (applyJobCancel now entry sm).1 := by
  apply withArg_fst (P := OnlyJobs sm) sm rfl
  intro jobId
  split
  · rfl
  · split_ifs <;> rfl

/-- The machine when the handler of a command starts: the call has been counted. -/
def counted : ReplicatedStateMachine := { sm with commandsApplied := sm.commandsApplied + 1 }

/-- **What a single command can change**: the store and the members, or the leases, or the jobs. -/
inductive Writes (sm' : ReplicatedStateMachine) : Prop
  | kv (only : OnlyKv sm.counted sm')
  | locks (kind : entry.commandType = .lockAcquire ∨ entry.commandType = .lockRelease)
      (only : OnlyLocks sm.counted sm')
  | assign (kind : entry.commandType = .jobAssign) (only : OnlyAssigned sm.counted sm')
  | jobs (kind : entry.commandType = .jobSubmit ∨ entry.commandType = .jobComplete ∨
        entry.commandType = .jobFail ∨ entry.commandType = .jobCancel)
      (only : OnlyJobs sm.counted sm')

theorem applyWithin_zero_writes (clock : Clock) : Writes entry sm (applyWithin 0 clock entry sm).1 := by
  rw [applyWithin]
  split
  case h_1 | h_2 | h_3 => exact .kv (by split <;> rfl)
  case h_4 => exact .kv (applyCas_writes entry _)
  case h_5 => exact .kv (applyIncrement_writes entry _)
  case h_6 hk => exact .locks (Or.inl hk) (applyLockAcquire_writes _ entry _)
  case h_7 hk => exact .locks (Or.inr hk) (applyLockRelease_writes entry _)
  case h_9 hk => exact .jobs (by simp [hk]) (applyJobSubmit_writes _ entry _)
  case h_10 hk => exact .assign hk (applyJobAssign_writes _ entry _)
  case h_11 hk => exact .jobs (by simp [hk]) (applyJobComplete_writes _ entry _)
  case h_12 hk => exact .jobs (by simp [hk]) (applyJobFail_writes _ entry _)
  case h_13 hk => exact .jobs (by simp [hk]) (applyJobCancel_writes _ entry _)
  case h_14 => exact .kv (applyMembershipChange_writes entry _)
  all_goals exact .kv rfl

end Writes

/-! ### The counter -/

section Counter

variable (entry : LogEntry) (sm : ReplicatedStateMachine)

theorem applyWithin_zero_commandsApplied (clock : Clock) :
    (applyWithin 0 clock entry sm).1.commandsApplied = sm.commandsApplied + 1 := by
  rcases applyWithin_zero_writes entry sm clock with h | ⟨-, h⟩ | ⟨-, h⟩ | ⟨-, h⟩ <;> rw [h] <;> rfl

theorem le_applyOps_commandsApplied {apply : LogEntry → ReplicatedStateMachine → Outcome}
    (h : ∀ sub sm, sm.commandsApplied ≤ (apply sub sm).1.commandsApplied) (clock : Clock)
    (ops : List Value) (results : List CommandResult) :
    sm.commandsApplied ≤ (applyOps apply clock ops results sm).1.commandsApplied := by
  induction ops generalizing results sm with
  | nil => exact le_rfl
  | cons op ops ih =>
    rw [applyOps_cons]
    cases subEntry (clock sm.commandsApplied) op with
    | error e =>
      dsimp only
      split
      · exact le_rfl
      · exact (lt_add_one _).le
    | ok sub =>
      have hle := h sub sm
      dsimp only
      rcases happly : apply sub sm with ⟨sm', out⟩
      rw [happly] at hle
      cases out with
      | error e => exact hle
      | ok res => exact hle.trans (ih sm' _)

theorem lt_applyWithin_commandsApplied (fuel : Nat) (clock : Clock) :
    sm.commandsApplied < (applyWithin fuel clock entry sm).1.commandsApplied := by
  induction fuel generalizing entry sm with
  | zero =>
    rw [applyWithin_zero_commandsApplied]
    exact lt_add_one _
  | succ fuel ih =>
    by_cases hb : entry.commandType = .batch
    · rw [applyWithin_batch hb]
      cases entry.operations with
      | error e => exact lt_add_one _
      | ok ops =>
        exact (lt_add_one sm.commandsApplied).trans_le
          (le_applyOps_commandsApplied _ (fun sub sm => (ih sub sm).le) clock ops [])
    · rw [applyWithin_of_ne_batch hb, applyWithin_zero_commandsApplied]
      exact lt_add_one _

end Counter

/-! ### Timestamps -/

def stampedWithin : Nat → LogEntry → Bool
  | 0, entry => entry.timestamp ≠ 0
  | fuel + 1, entry =>
    entry.timestamp ≠ 0 &&
      (entry.commandType ≠ .batch ||
        match entry.operations with
        | .error _ => true
        | .ok ops => ops.all fun op =>
          match op with
          | .dict data =>
            (Dict.lookup "timestamp" data).isSome &&
              match LogEntry.fromDict 0 data with
              | .error _ => true
              | .ok sub => stampedWithin fuel sub
          | .entry sub => stampedWithin fuel sub
          | _ => true)

/-- `apply_command` needs no time reading for the entry. -/
def Stamped (entry : LogEntry) : Prop := stampedWithin (entry.extraData.depth + 1) entry = true
deriving Decidable

/-- The commands that take the time from their entry, and from `time.time()` if it has none. -/
def readsClock : RaftCommandType → Bool
  | .lockAcquire | .jobSubmit | .jobAssign | .jobComplete | .jobFail | .jobCancel => true
  | _ => false

/-- No lock or job command lacks a timestamp, neither the entry nor an operation of its batch. -/
def clockFreeWithin : Nat → LogEntry → Bool
  | 0, entry => !readsClock entry.commandType || entry.timestamp ≠ 0
  | fuel + 1, entry =>
    (!readsClock entry.commandType || entry.timestamp ≠ 0) &&
      (entry.commandType ≠ .batch ||
        match entry.operations with
        | .error _ => true
        | .ok ops => ops.all fun op =>
          match subEntry 0 op with
          | .error _ => true
          | .ok sub => clockFreeWithin fuel sub)

/-- `apply_command` reads no time for the entry. -/
def ClockFree (entry : LogEntry) : Prop :=
  clockFreeWithin (entry.extraData.depth + 1) entry = true
deriving Decidable

theorem fromDict_of_timestamp (h : (Dict.lookup "timestamp" data).isSome) (now now' : Rat) :
    LogEntry.fromDict now data = LogEntry.fromDict now' data := by
  obtain ⟨v, hv⟩ := Option.isSome_iff_exists.mp h
  simp only [LogEntry.fromDict, hv, Option.getD_some]

theorem fromDict_of_no_timestamp (h : Dict.lookup "timestamp" data = none) (now : Rat) :
    LogEntry.fromDict now data = (LogEntry.fromDict 0 data).map fun e => e.withTimestamp now := by
  simp only [LogEntry.fromDict, h, Option.getD_none, Value.toFloat, map_bind_eq]
  refine bind_congr fun _ => bind_congr fun _ => bind_congr fun _ => bind_congr fun _ =>
    bind_congr fun _ => bind_congr fun _ => ?_
  split
  · rfl
  · cases Value.toInt _ <;> rfl

theorem subEntry_now (op : Value) (now : Rat) :
    (∃ e, subEntry 0 op = .error e ∧ subEntry now op = .error e) ∨
      ∃ sub t, subEntry 0 op = .ok sub ∧ subEntry now op = .ok (sub.withTimestamp t) ∧
        (sub.timestamp ≠ 0 → t = sub.timestamp) := by
  cases op with
  | dict data =>
    rw [subEntry, subEntry]
    cases hdecode : LogEntry.fromDict 0 data with
    | error e =>
      left
      refine ⟨e, rfl, ?_⟩
      cases htime : Dict.lookup "timestamp" data with
      | none => rw [fromDict_of_no_timestamp htime, hdecode]; rfl
      | some v => rw [fromDict_of_timestamp (by rw [htime]; rfl) now 0, hdecode]
    | ok sub =>
      right
      cases htime : Dict.lookup "timestamp" data with
      | none =>
        refine ⟨sub, now, rfl, by rw [fromDict_of_no_timestamp htime, hdecode]; rfl, fun hne => ?_⟩
        rw [fromDict_of_no_timestamp htime] at hdecode
        obtain ⟨e, -, rfl⟩ := map_eq_ok.mp hdecode
        exact absurd rfl hne
      | some v =>
        refine ⟨sub, sub.timestamp, rfl, ?_, fun _ => rfl⟩
        rw [fromDict_of_timestamp (by rw [htime]; rfl) now 0, hdecode, sub.withTimestamp_self]
  | entry e => exact Or.inr ⟨e, e.timestamp, rfl, by rw [e.withTimestamp_self, subEntry], fun _ => rfl⟩
  | _ => exact Or.inl ⟨_, rfl, rfl⟩

section

variable (h : clockFreeWithin fuel entry = true)
include h

theorem timestamp_ne_zero_of_clockFree (hreads : readsClock entry.commandType = true) : entry.timestamp ≠ 0 := by
  cases fuel <;> simp_all [clockFreeWithin]

theorem applyWithin_zero_congr {a b : Rat}
    (hab : readsClock entry.commandType = true → a = entry.timestamp ∧ b = entry.timestamp) (clock clock' : Clock) :
    applyWithin 0 clock (entry.withTimestamp a) = applyWithin 0 clock' (entry.withTimestamp b) := by
  have hne := timestamp_ne_zero_of_clockFree h
  rw [LogEntry.withTimestamp, LogEntry.withTimestamp]
  cases hk : entry.commandType with
  | lockAcquire | jobSubmit | jobAssign | jobComplete | jobFail | jobCancel =>
    rw [hk] at hab hne
    obtain ⟨rfl, rfl⟩ := hab rfl
    simp only [applyWithin, orNow, if_neg (hne rfl)]
  | _ => rfl

theorem applyWithin_congr_clock {a b : Rat}
    (hab : readsClock entry.commandType = true → a = entry.timestamp ∧ b = entry.timestamp) (clock clock' : Clock) :
    applyWithin fuel clock (entry.withTimestamp a) = applyWithin fuel clock' (entry.withTimestamp b) := by
  induction fuel generalizing entry a b with
  | zero => exact applyWithin_zero_congr h hab clock clock'
  | succ fuel ih =>
    funext sm
    by_cases hb : entry.commandType = .batch
    · have hb' : ∀ t, (entry.withTimestamp t).commandType = .batch := fun _ => hb
      rw [applyWithin_batch (hb' a), applyWithin_batch (hb' b)]
      show withArg _ entry.operations _ = withArg _ entry.operations _
      cases hops : entry.operations with
      | error e => rfl
      | ok ops =>
        refine applyOps_congr (fun op hop n => ?_) _ _
        rcases subEntry_now op (clock n) with ⟨e, h0, he⟩ | ⟨sub, t, h0, hsub, ht⟩
        · rcases subEntry_now op (clock' n) with ⟨e', h0', he'⟩ | ⟨sub', t', h0', -, -⟩
          · rw [h0, Except.error.injEq] at h0'
            exact Or.inl ⟨e, he, h0' ▸ he'⟩
          · simp [h0] at h0'
        · rcases subEntry_now op (clock' n) with ⟨e', h0', he'⟩ | ⟨sub', t', h0', hsub', ht'⟩
          · simp [h0] at h0'
          · rw [h0, Except.ok.injEq] at h0'
            subst h0'
            have hfree : clockFreeWithin fuel sub = true := by
              simp only [clockFreeWithin, hb, hops, Bool.and_eq_true, ne_eq, not_true_eq_false,
                decide_false, Bool.false_or, List.all_eq_true] at h
              have := h.2 op hop
              rwa [h0] at this
            refine Or.inr ⟨_, _, hsub, hsub', ih hfree fun hreads => ?_⟩
            have hne := timestamp_ne_zero_of_clockFree hfree hreads
            exact ⟨ht hne, ht' hne⟩
    · have hb' : ∀ t, (entry.withTimestamp t).commandType ≠ .batch := fun _ => hb
      rw [applyWithin_of_ne_batch (hb' a), applyWithin_of_ne_batch (hb' b),
        applyWithin_zero_congr h hab clock clock']

end

theorem ClockFree.applyCommand_eq (h : ClockFree entry) (clock clock' : Clock) (sm : ReplicatedStateMachine) :
    sm.applyCommand clock entry = sm.applyCommand clock' entry := by
  have := applyWithin_congr_clock h (fun _ => ⟨rfl, rfl⟩) clock clock'
  rw [entry.withTimestamp_self] at this
  exact congrFun this sm

theorem clockFree_of_stampedWithin (h : stampedWithin fuel entry = true) : clockFreeWithin fuel entry = true := by
  induction fuel generalizing entry with
  | zero => simp_all [stampedWithin, clockFreeWithin]
  | succ fuel ih =>
    simp only [stampedWithin, ne_eq, decide_not, Bool.and_eq_true, Bool.or_eq_true] at h
    simp only [clockFreeWithin, ne_eq, decide_not, Bool.and_eq_true, Bool.or_eq_true]
    refine ⟨Or.inr h.1, h.2.imp_right fun hops => ?_⟩
    cases hopsEq : entry.operations with
    | error e => rfl
    | ok ops =>
      rw [hopsEq] at hops
      simp only [List.all_eq_true] at hops ⊢
      intro op hop
      have hstamped := hops op hop
      cases op with
      | dict data =>
        rw [Bool.and_eq_true] at hstamped
        rw [subEntry]
        cases hdecode : LogEntry.fromDict 0 data with
        | error e => rfl
        | ok sub =>
          rw [hdecode] at hstamped
          exact ih hstamped.2
      | entry e => exact ih hstamped
      | _ => rfl

theorem applyCommand_congr_clock (h : Stamped entry) (clock clock' : Clock) (sm : ReplicatedStateMachine) :
    sm.applyCommand clock entry = sm.applyCommand clock' entry :=
  ClockFree.applyCommand_eq (clockFree_of_stampedWithin h) clock clock' sm

/-! ### Snapshots -/

/-- **Export and import** give the machine back, as long as no lease has run out. -/
theorem importState_exportState {now : Rat} {sm : ReplicatedStateMachine}
    (h : ∀ lock ∈ sm.locks.values, lock.isExpired now = false) : importState (sm.exportState now) = sm := by
  have hlocks : sm.locks.filterValues (fun lock => !lock.isExpired now) = sm.locks := by
    apply Dict.filterValues_eq_self
    intro lock hlock
    simp [h lock hlock]
  rw [importState, exportState, hlocks]

end ReplicatedStateMachine

end MeshWeaver
