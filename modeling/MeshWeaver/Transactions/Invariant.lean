import MeshWeaver.Transactions.System

/-!
# Locks between prepare and apply

The invariant (`TxSystem.Ok`): a transaction that is to be applied is prepared, its record is what its client
buffered, and it holds the lock of every key it writes; nobody but prepared transactions holds a lock. The section of
another transaction leaves all of this alone (`Spares`). It is kept by commits that raise, too: such a transaction
stays prepared.
-/

namespace MeshWeaver

open Lib TxRecord
open TransactionCoordinator

def TxRecord.settled (tx : TxRecord) : Bool := tx.status = .committed ∨ tx.status = .aborted

namespace TransactionCoordinator

/-- **What the loop of a commit does** to the coordinator, whether or not it raises. -/
theorem applySection_eq (objects : PyObjects) (c : TransactionCoordinator) (tx : TxRecord) :
    ∃ sm versions, (c.applySection objects tx).1 = { c with stateMachine := sm, keyVersions := versions } ∧
      sm.isSome = c.stateMachine.isSome ∧
      ∀ k, c.keyVersions.current k ≤ versions.current k ∧
        versions.current k ≤ c.keyVersions.current k + (tx.operations.countP fun op => op.key = k : Nat) ∧
        ((c.applySection objects tx).2 = .ok () → c.stateMachine.isSome → versions.current k =
          c.keyVersions.current k + (tx.operations.countP fun op => op.key = k : Nat)) := by
  unfold applySection
  cases hsm : c.stateMachine with
  | none =>
    refine ⟨none, c.keyVersions, ?_, rfl, fun k => ⟨le_rfl, by omega, nofun⟩⟩
    change c = { c with stateMachine := none }
    rw [← hsm]
  | some sm =>
    refine ⟨_, _, rfl, rfl, fun k => ?_⟩
    obtain ⟨hlow, hhigh, hexact⟩ := Versions.current_applyOperations objects tx.operations (sm, c.keyVersions) k
    exact ⟨hlow, hhigh, fun hok _ => hexact hok⟩

/-- **What a section of transaction `id` leaves alone**: the records and locks of the others. No version
decreases. -/
structure Spares (id : String) (c c' : TransactionCoordinator) : Prop where
  records : ∀ j, j ≠ id → c'.activeTxs.get? j = c.activeTxs.get? j
  locks : ∀ k j, j ≠ id → (c'.keyLocks.get? k = some j ↔ c.keyLocks.get? k = some j)
  versions : ∀ k, c.keyVersions.current k ≤ c'.keyVersions.current k
  present : c'.stateMachine.isSome = c.stateMachine.isSome

theorem Spares.refl (id : String) (c : TransactionCoordinator) : Spares id c c :=
  ⟨fun _ _ => rfl, fun _ _ _ => Iff.rfl, fun _ => le_rfl, rfl⟩

theorem get?_insert_of_ne {id j : String} {txs : Dict String TxRecord} {tx : TxRecord} (h : j ≠ id) :
    (txs.insert id tx).get? j = txs.get? j := by
  rw [Dict.get?_insert, if_neg h]

theorem releaseLocks_iff {id j k : String} {keys : List String} {locks : Dict String String}
    (h : j ≠ id) : (releaseLocks id keys locks).get? k = some j ↔ locks.get? k = some j := by
  rw [get?_releaseLocks]
  split_ifs with hheld
  · rw [hheld.2, Option.some.injEq]
    exact iff_of_false (by simp) (Ne.symm h)
  · exact Iff.rfl

theorem releaseLocks_self {id k : String} {keys : List String} {locks : Dict String String}
    (h : (releaseLocks id keys locks).get? k = some id) : k ∉ keys ∧ locks.get? k = some id := by
  rw [get?_releaseLocks] at h
  split_ifs at h with hheld
  exact ⟨fun hk => hheld ⟨hk, h⟩, h⟩

end TransactionCoordinator

namespace Session

/-- The record of a session has the status that its phase calls for. A commit that has raised leaves the
record prepared, or committed if only the marker could not be encoded. -/
def Fits (tx : TxRecord) (x : Session) : Prop :=
  match x.phase with
  | .active | .reading _ | .fetched _ _ | .lookup | .prepare => tx.status = .active
  | .apply =>
    tx.status = .prepared ∧ tx.operations = x.context.operations ∧ tx.writeSet = x.context.writeSet
  | .abort _ _ => tx.status = .active ∨ tx.status = .timedOut
  | .returned .commit (.ok true) => tx.status = .committed
  | .returned .commit (.error _) | .returned .rollback (.ok false) =>
    tx.status = .prepared ∨ tx.status = .committed
  | .returned _ _ => tx.status = .aborted

theorem Fits.operations_eq {tx : TxRecord} {x : Session} (h : x.Fits tx) (hphase : x.phase = .apply) :
    tx.operations = x.context.operations := by
  rw [Fits, hphase] at h
  exact h.2.1

theorem Fits.returned {tx : TxRecord} {x : Session} (h : x.Fits tx) (hsettled : tx.settled = true) :
    ∃ call answer, x.phase = .returned call answer := by
  unfold Fits at h
  cases hphase : x.phase with
  | returned call answer => exact ⟨call, answer, rfl⟩
  | apply =>
    rw [hphase] at h
    simp [settled, h.1] at hsettled
  | abort reason call =>
    rw [hphase] at h
    rcases h with h | h <;> simp [settled, h] at hsettled
  | _ =>
    rw [hphase] at h
    simp [settled, h] at hsettled

/-- No call of the client has raised. -/
def Unraised (x : Session) : Prop := ∀ p ∈ x.calls, p.2.isOk = true
deriving Decidable

/-- **The invariant of one session.** -/
structure Ok (c : TransactionCoordinator) (id : String) (x : Session) : Prop where
  named : x.txId = id
  nonempty : id ≠ ""
  recorded : ∃ tx, c.activeTxs.get? id = some tx ∧ x.Fits tx
  holds : x.phase = .apply → ∀ k ∈ x.context.writeSet.keys, c.keyLocks.get? k = some id
  written : x.Unraised → x.context.Written

/-- Every lock that the transaction holds is that of a key its record writes, and the record is prepared. -/
def Locks (c : TransactionCoordinator) (id : String) : Prop :=
  ∀ k, c.keyLocks.get? k = some id →
    ∃ tx, c.activeTxs.get? id = some tx ∧ tx.status = .prepared ∧ k ∈ tx.writeSet.keys

variable {objects : PyObjects} {c c' : TransactionCoordinator} {id j : String} {x : Session} {tx : TxRecord}

theorem Ok.frame (h : x.Ok c j) (hspares : Spares id c c') (hne : j ≠ id) : x.Ok c' j where
  named := h.named
  nonempty := h.nonempty
  recorded := by
    rw [hspares.records j hne]
    exact h.recorded
  holds := fun hphase k hk => (hspares.locks k j hne).mpr (h.holds hphase k hk)
  written := h.written

namespace Move

variable {out : TransactionCoordinator × Session}

section
variable (hmove : Move objects c tx x out)
include hmove

theorem spares (hholders : ∀ k holder, c.keyLocks.get? k = some holder → holder ≠ "") :
    Spares x.txId c out.1 := by
  obtain ⟨sm, versions, hsection, hpresent, hversions⟩ := applySection_eq objects c tx
  cases hmove with
  | refused status reason phase unprepared =>
    exact ⟨fun j hj => get?_insert_of_ne hj, fun _ _ _ => Iff.rfl, fun _ => le_rfl, rfl⟩
  | granted locks tokens granted counter phase free current locked =>
    refine ⟨fun j hj => get?_insert_of_ne hj, fun k j hj => ?_, fun _ => le_rfl, rfl⟩
    change locks.get? k = some j ↔ _
    rw [locked k]
    split_ifs with hk
    · -- a key that was not free would have had another holder
      refine iff_of_false (fun h => hj (Option.some.inj h).symm) fun hheld => ?_
      exact (free k hk j hheld).elim (hholders k j hheld) hj
    · exact Iff.rfl
  | sticks e phase raised =>
    rw [hsection]
    exact ⟨fun _ _ => rfl, fun _ _ _ => Iff.rfl, fun k => (hversions k).1, hpresent⟩
  | applies now answer phase whole encoded =>
    rw [hsection]
    exact ⟨fun j hj => get?_insert_of_ne hj, fun k j hj => releaseLocks_iff hj, fun k => (hversions k).1,
      hpresent⟩
  | aborts now reason call answer phase refusal =>
    exact ⟨fun j hj => get?_insert_of_ne hj, fun k j hj => releaseLocks_iff hj, fun _ => le_rfl, rfl⟩
  | _ => exact .refl _ c

theorem txId_eq : out.2.txId = x.txId := by
  cases hmove with
  | calls ctx call answer phase answers =>
    have hmove := TransactionContext.callMove objects (fun _ => .none) x.context call
    rw [answers] at hmove
    cases hmove <;> rfl
  | _ => rfl

theorem recorded (htx : c.activeTxs.get? x.txId = some tx) (hfits : x.Fits tx) :
    ∃ tx', out.1.activeTxs.get? x.txId = some tx' ∧ out.2.Fits tx' := by
  obtain ⟨sm, versions, hsection, -⟩ := applySection_eq objects c tx
  cases hmove with
  | idle => exact ⟨tx, htx, hfits⟩
  | calls ctx call answer phase answers =>
    refine ⟨tx, htx, ?_⟩
    rw [Fits, phase] at hfits ⊢
    exact hfits
  | closes next phase due =>
    rw [Fits, phase] at hfits
    refine ⟨tx, htx, ?_⟩
    rcases due with rfl | ⟨reason, rfl⟩
    · exact hfits
    · exact Or.inl hfits
  | finds phase =>
    rw [Fits, phase] at hfits
    refine ⟨tx, htx, ?_⟩
    rwa [if_neg (by simp [hfits])]
  | refused status reason phase unprepared =>
    rw [Fits, phase] at hfits
    refine ⟨_, Dict.get?_insert_self .., ?_⟩
    rcases unprepared with rfl | rfl
    · exact Or.inl hfits
    · exact Or.inr rfl
  | granted locks tokens granted counter phase free current locked =>
    exact ⟨_, Dict.get?_insert_self .., rfl, rfl, rfl⟩
  | sticks e phase raised =>
    rw [Fits, phase] at hfits
    rw [hsection]
    exact ⟨tx, htx, Or.inl hfits.1⟩
  | applies now answer phase whole encoded =>
    refine ⟨_, Dict.get?_insert_self .., ?_⟩
    rcases encoded with rfl | ⟨-, e, rfl⟩
    · rfl
    · exact Or.inr rfl
  | aborts now reason call answer phase refusal =>
    refine ⟨_, Dict.get?_insert_self .., ?_⟩
    cases call <;> rw [refusal] <;> rfl
  | _ => exact ⟨tx, htx, by simp_all [Fits]⟩

/-- **A transaction becomes ready to be applied** when its keys are granted. -/
theorem granted_of_apply (hfits : x.Fits tx) (hphase : out.2.phase = .apply) :
    out = (c, x) ∨ out.2.context = x.context ∧ out.1.keyVersions = c.keyVersions ∧
      (∀ k ∈ x.context.writeSet.keys, out.1.keyLocks.get? k = some x.txId) ∧
      ∀ op ∈ x.context.operations, ∀ v, op.expectedVersion = some v → c.keyVersions.current op.key = v := by
  cases hmove with
  | idle => exact Or.inl rfl
  | calls ctx call answer phase => cases phase.symm.trans hphase
  | closes next phase due => rcases due with rfl | ⟨reason, rfl⟩ <;> cases hphase
  | finds phase =>
    rw [Fits, phase] at hfits
    rw [if_neg (by simp [hfits])] at hphase
    cases hphase
  | granted locks tokens granted counter phase free current locked =>
    refine Or.inr ⟨rfl, rfl, fun k hk => ?_, current⟩
    change locks.get? k = _
    rw [locked k, if_pos hk]
  | _ => cases hphase

theorem written (h : x.Unraised → x.context.Written) (hraised : out.2.Unraised) : out.2.context.Written := by
  cases hmove with
  | calls ctx call answer phase answers =>
    have hold : x.Unraised := fun p hp => hraised p (List.mem_append_left _ hp)
    have hnew : answer.isOk = true := hraised (call, answer) (by simp)
    cases answer with
    | error e => cases hnew
    | ok value =>
      have hcall := answers fun _ => .none
      have hwritten := TransactionContext.call_written objects (fun _ => .none) (h hold) (congrArg Prod.snd hcall)
      rw [hcall] at hwritten
      exact hwritten
  | answers key value phase => exact h fun p hp => hraised p (List.mem_append_left _ hp)
  | _ => exact h hraised

theorem ok (hx : x.Ok c x.txId)
    (htx : c.activeTxs.get? x.txId = some tx) (hfits : x.Fits tx) : out.2.Ok out.1 x.txId where
  named := hmove.txId_eq
  nonempty := hx.nonempty
  recorded := hmove.recorded htx hfits
  holds := fun hphase => by
    rcases hmove.granted_of_apply hfits hphase with rfl | ⟨hcontext, -, hlocks, -⟩
    · exact hx.holds hphase
    · rwa [hcontext]
  written := hmove.written hx.written

theorem locks (hlocks : Locks c x.txId) (htx : c.activeTxs.get? x.txId = some tx) (hfits : x.Fits tx) :
    Locks out.1 x.txId := by
  obtain ⟨sm, versions, hsection, -⟩ := applySection_eq objects c tx
  -- before it is prepared, and once it is released, the transaction holds nothing
  have hnone : tx.status ≠ .prepared → ∀ k, c.keyLocks.get? k ≠ some x.txId := by
    intro hstatus k hk
    obtain ⟨tx', htx', hprepared, -⟩ := hlocks k hk
    rw [htx] at htx'
    cases htx'
    exact hstatus hprepared
  have hreleased : ∀ k, (releaseLocks x.txId tx.writeSet.keys c.keyLocks).get? k ≠ some x.txId := by
    intro k hk
    obtain ⟨hnot, hheld⟩ := releaseLocks_self hk
    obtain ⟨tx', htx', -, hwritten⟩ := hlocks k hheld
    rw [htx] at htx'
    cases htx'
    exact hnot hwritten
  intro k hk
  cases hmove with
  | refused status reason phase unprepared =>
    rw [Fits, phase] at hfits
    exact absurd hk (hnone (by simp [hfits]) k)
  | granted locks tokens granted counter phase free current locked =>
    rw [Fits, phase] at hfits
    refine ⟨_, Dict.get?_insert_self .., rfl, ?_⟩
    change locks.get? k = _ at hk
    rw [locked k] at hk
    split_ifs at hk with hwritten
    · exact hwritten
    · exact absurd hk (hnone (by simp [hfits]) k)
  | sticks e phase raised =>
    rw [hsection] at hk ⊢
    exact hlocks k hk
  | applies now answer phase whole encoded =>
    rw [hsection] at hk
    exact absurd hk (hreleased k)
  | aborts now reason call answer phase refusal => exact absurd hk (hreleased k)
  | _ => exact hlocks k hk

theorem totals (htx : c.activeTxs.get? x.txId = some tx) (hfits : x.Fits tx)
    (h : c.totalCommitted + c.totalAborted = c.activeTxs.values.countP settled) :
    out.1.totalCommitted + out.1.totalAborted = out.1.activeTxs.values.countP settled := by
  obtain ⟨sm, versions, hsection, -⟩ := applySection_eq objects c tx
  -- what the count becomes when the record is replaced
  have hcount : ∀ tx' : TxRecord, (∀ call answer, x.phase ≠ .returned call answer) →
      (c.activeTxs.insert x.txId tx').values.countP settled =
        c.activeTxs.values.countP settled + if tx'.settled then 1 else 0 := by
    intro tx' hphase
    have hactive : tx.settled = false := by
      rw [← Bool.not_eq_true]
      intro hsettled
      obtain ⟨call, answer, hreturned⟩ := hfits.returned hsettled
      exact hphase call answer hreturned
    have hinsert := c.activeTxs.countP_values_insert settled x.txId tx'
    rw [htx] at hinsert
    simpa [hactive, List.countP_cons] using hinsert
  cases hmove with
  | refused status reason phase unprepared =>
    have hsame : settled { tx.withContext (some x.context) with status } = false := by
      rw [Fits, phase] at hfits
      rcases unprepared with rfl | rfl
      · simp [settled, hfits]
      · simp [settled]
    change _ = (c.activeTxs.insert _ _).values.countP _
    rwa [hcount _ (by simp [phase]), hsame]
  | granted locks tokens granted counter phase free current locked =>
    change _ = (c.activeTxs.insert _ _).values.countP _
    rwa [hcount _ (by simp [phase])]
  | sticks e phase raised =>
    rwa [hsection]
  | applies now answer phase whole encoded =>
    rw [hsection]
    change c.totalCommitted + 1 + c.totalAborted = (c.activeTxs.insert _ _).values.countP _
    rw [hcount _ (by simp [phase]), ← h]
    exact Nat.add_right_comm _ _ _
  | aborts now reason call answer phase refusal =>
    rw [hcount _ (by simp [phase]), ← h]
    rfl
  | _ => exact h

end

end Move

end Session

namespace TxSystem

/-- **The invariant of the coordinator and its clients.** -/
structure Ok (s : TxSystem) : Prop where
  sessions : ∀ id x, s.sessions.get? id = some x → x.Ok s.coordinator id
  known : ∀ id tx, s.coordinator.activeTxs.get? id = some tx → ∃ x, s.sessions.get? id = some x
  locked : ∀ id, Session.Locks s.coordinator id
  totals : s.coordinator.totalCommitted + s.coordinator.totalAborted =
    s.coordinator.activeTxs.values.countP settled

def opened (uuid : String) (isolationLevel : TxIsolationLevel) (timeoutSeconds : Rat) : Session :=
  { context := .new ("tx_" ++ uuid) isolationLevel timeoutSeconds, phase := .active, calls := [],
    reads := [] }

/-- **What a step can do**: nothing, begin a transaction, or one move of one session. -/
inductive StepMove (objects : PyObjects) (s : TxSystem) (ev : TxEvent) : TxSystem → Prop
  | same : StepMove objects s ev s
  | begins (uuid : String) (isolationLevel : TxIsolationLevel) (timeoutSeconds now : Rat)
      (fresh : s.coordinator.activeTxs.get? ("tx_" ++ uuid) = none) :
      StepMove objects s ev
        ⟨(s.coordinator.beginTransaction uuid isolationLevel timeoutSeconds now).1,
          s.sessions.insert ("tx_" ++ uuid) (opened uuid isolationLevel timeoutSeconds)⟩
  | moves (x : Session) (tx : TxRecord) (out : TransactionCoordinator × Session)
      (session : s.sessions.get? x.txId = some x)
      (record : s.coordinator.activeTxs.get? x.txId = some tx) (fits : x.Fits tx)
      (move : x.Move objects s.coordinator tx out)
      (applied : x.phase = .apply → s.applies ev = some x.txId ∨ out = (s.coordinator, x)) :
      StepMove objects s ev ⟨out.1, s.sessions.insert x.txId out.2⟩

variable {objects : PyObjects} {s : TxSystem}

variable (objects) in
theorem stepMove (h : s.Ok) (ev : TxEvent) : StepMove objects s ev (s.step objects ev) := by
  cases ev with
  | begin uuid isolationLevel timeoutSeconds now =>
    rw [step]
    cases hfresh : s.coordinator.activeTxs.get? ("tx_" ++ uuid) with
    | some tx => exact .same
    | none => exact .begins uuid isolationLevel timeoutSeconds now hfresh
  | act id action =>
    rw [step]
    cases hsession : s.sessions.get? id with
    | none => exact .same
    | some x =>
      obtain ⟨tx, hrecord, hfits⟩ := (h.sessions id x hsession).recorded
      have hname := (h.sessions id x hsession).named
      subst hname
      refine .moves x tx (x.advance objects s.coordinator action) hsession hrecord hfits
        (Session.move_advance hrecord action) fun hphase => ?_
      -- a client that waits for the last section of its commit does nothing else
      cases action with
      | proceed now =>
        left
        rw [applies, hsession, Option.map_some, hphase]
      | _ =>
        right
        rw [Session.advance, hphase]

theorem Ok.holder_ne (h : s.Ok) {k holder : String}
    (hk : s.coordinator.keyLocks.get? k = some holder) : holder ≠ "" := by
  obtain ⟨tx, htx, -⟩ := h.locked holder k hk
  obtain ⟨x, hx⟩ := h.known holder tx htx
  exact (h.sessions holder x hx).nonempty

theorem Ok.of_spares (h : s.Ok) {c : TransactionCoordinator} {id : String} {x : Session}
    (hspares : Spares id s.coordinator c) (hx : x.Ok c id) (hlocks : Session.Locks c id)
    (htotals : c.totalCommitted + c.totalAborted = c.activeTxs.values.countP settled) :
    Ok ⟨c, s.sessions.insert id x⟩ where
  sessions := by
    intro j y hy
    rw [Dict.get?_insert] at hy
    split_ifs at hy with hj
    · cases hy
      rwa [hj]
    · exact (h.sessions j y hy).frame hspares hj
  known := by
    intro j tx htx
    rw [Dict.get?_insert]
    split_ifs with hj
    · exact ⟨x, rfl⟩
    · exact h.known j tx (by rw [← hspares.records j hj]; exact htx)
  locked := by
    intro j k hk
    by_cases hj : j = id
    · rw [hj] at hk ⊢
      exact hlocks k hk
    · rw [hspares.records j hj]
      exact h.locked j k ((hspares.locks k j hj).mp hk)
  totals := htotals

theorem Ok.begins (h : s.Ok) {uuid : String} (isolationLevel : TxIsolationLevel)
    (timeoutSeconds now : Rat) (hfresh : s.coordinator.activeTxs.get? ("tx_" ++ uuid) = none) :
    Ok ⟨(s.coordinator.beginTransaction uuid isolationLevel timeoutSeconds now).1,
      s.sessions.insert ("tx_" ++ uuid) (opened uuid isolationLevel timeoutSeconds)⟩ := by
  refine h.of_spares ?_ ?_ ?_ ?_
  · exact ⟨fun j hj => get?_insert_of_ne hj, fun _ _ _ => Iff.rfl, fun _ => le_rfl, rfl⟩
  · exact ⟨rfl, by simp, ⟨_, Dict.get?_insert_self .., rfl⟩, nofun, fun _ _ hop => nomatch hop⟩
  · intro k hk
    obtain ⟨tx, htx, -⟩ := h.locked _ k hk
    cases hfresh.symm.trans htx
  · have hinsert := s.coordinator.activeTxs.countP_values_insert settled ("tx_" ++ uuid)
      ⟨"tx_" ++ uuid, s.coordinator.nodeId, .active, isolationLevel, [], .empty, .empty, .empty,
        timeoutSeconds, now, none, none⟩
    rw [hfresh] at hinsert
    exact h.totals.trans hinsert.symm

theorem Ok.step (h : s.Ok) (ev : TxEvent) : (s.step objects ev).Ok := by
  have hmove := stepMove objects h ev
  generalize s.step objects ev = s' at hmove
  cases hmove with
  | same => exact h
  | begins uuid isolationLevel timeoutSeconds now fresh =>
    exact h.begins isolationLevel timeoutSeconds now fresh
  | moves x tx out session record fits move applied =>
    have hx := h.sessions _ x session
    exact h.of_spares (move.spares fun k holder => h.holder_ne) (move.ok hx record fits)
      (move.locks (h.locked _) record fits) (move.totals record fits h.totals)

theorem ok_init (nodeId : String) (stateMachine : Option ReplicatedStateMachine) : (init nodeId stateMachine).Ok where
  sessions := fun _ _ h => by cases h
  known := fun _ _ h => by cases h
  locked := fun _ _ h => by cases h
  totals := rfl

theorem ok_after (nodeId : String) (stateMachine : Option ReplicatedStateMachine)
    (events : List TxEvent) : (after objects nodeId stateMachine events).Ok :=
  run_invariant (fun _ ev h => h.step ev) (ok_init nodeId stateMachine) events

end TxSystem

end MeshWeaver
