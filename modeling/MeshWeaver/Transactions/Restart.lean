import MeshWeaver.Transactions.Logged

/-!
# Versions after a restart

After a crash there is a new coordinator, and its store is recovered from the log. The versions of the
keys and the locks are not: a transaction is checked as if no key had ever been written. So it is judged
as before only if the versions it expects would not have told the difference.
-/

namespace MeshWeaver

open Lib CallSystem
open TransactionCoordinator

/-- A transaction as its client runs it, with nothing else going on: it is begun, buffers its operations
and commits. -/
structure Attempt where
  uuid : String
  isolationLevel : TxIsolationLevel
  timeoutSeconds : Rat
  begun : Rat
  now : Rat
  context : TransactionContext

namespace Attempt

variable (a : Attempt)

def txId : String := "tx_" ++ a.uuid

def events : List CallEvent :=
  [.begin a.uuid a.isolationLevel a.timeoutSeconds a.begun, .commit a.txId a.context true,
    .proceed 0 a.now, .proceed 0 a.now, .proceed 0 a.now]

/-- `commit()` returns `True` on this coordinator. -/
def Succeeds (c : TransactionCoordinator) : Prop :=
  (run (CallSystem.step .values) ⟨c, [], []⟩ a.events).calls.map CommitCall.phase = [.returned (.ok true)]
deriving Decidable

/-- The lease of the transaction has expired when it commits. -/
def Expired : Prop := a.now > a.begun + a.timeoutSeconds
deriving Decidable

end Attempt

namespace CallSystem

variable {s : CallSystem} {k : Nat} {call : CommitCall} {now : Rat} {tx : TxRecord}

theorem proceed_lookup (hphase : call.phase = .lookup) (htx : s.record? call.txId = some tx)
    (hstatus : tx.status ≠ .prepared) : s.proceed .values k call now = s.advance k call .prepare := by
  unfold proceed
  rw [hphase]
  rw [htx]
  dsimp only
  rw [if_neg hstatus]

theorem proceed_apply (hphase : call.phase = .apply) (htx : s.record? call.txId = some tx) :
    (s.proceed .values k call now).calls = (s.advance k call (.returned (.ok true))).calls := by
  unfold proceed
  rw [hphase]
  rw [htx]
  dsimp only
  rw [finishCommit_values]
  rfl

end CallSystem

namespace Attempt

variable {a : Attempt} {c : TransactionCoordinator}

def opened (a : Attempt) (c : TransactionCoordinator) : TransactionCoordinator :=
  (c.beginTransaction a.uuid a.isolationLevel a.timeoutSeconds a.begun).1

def record (a : Attempt) (c : TransactionCoordinator) : TxRecord :=
  { txId := a.txId, coordinatorId := c.nodeId, status := .active, isolationLevel := a.isolationLevel,
    operations := [], readSet := .empty, writeSet := .empty, fencingTokens := .empty,
    timeoutSeconds := a.timeoutSeconds, createdAt := a.begun, completedAt := none,
    errorMessage := none }

theorem opened_record (a : Attempt) (c : TransactionCoordinator) :
    (a.opened c).activeTxs.get? a.txId = some (a.record c) := Dict.get?_insert_self ..

/-- The call of `commit_transaction`, in a phase. -/
def call (a : Attempt) (phase : CommitPhase) : CommitCall := ⟨a.txId, a.context, true, phase⟩

theorem known_of_prepare {record : TxRecord} (hrecord : c.activeTxs.get? a.txId = some record) :
    ∃ tx, (c.prepareTransaction a.now a.txId (some a.context)).1.activeTxs.get? a.txId = some tx := by
  have hmove := prepareMove hrecord a.now (some a.context)
  generalize c.prepareTransaction a.now a.txId (some a.context) = out at hmove
  cases hmove with
  | refuses status message unprepared | grants => exact ⟨_, Dict.get?_insert_self ..⟩

def prepared (a : Attempt) (c : TransactionCoordinator) : CallSystem × TxPrepareResult :=
  prepare ⟨a.opened c, [], [a.call .prepare]⟩ a.now a.txId (some a.context)

section

variable (hfresh : c.activeTxs.get? a.txId = none)
include hfresh

theorem run_to_prepared :
    run (CallSystem.step .values) ⟨c, [], []⟩ a.events =
      ((a.prepared c).1.advance 0 (a.call .prepare)
        (if (a.prepared c).2.voteYes then .apply else .abort (a.prepared c).2.errorMessage)).step .values
        (.proceed 0 a.now) := by
  have hbegin : CallSystem.step .values ⟨c, [], []⟩
      (.begin a.uuid a.isolationLevel a.timeoutSeconds a.begun) = ⟨a.opened c, [], []⟩ := by
    rw [CallSystem.step, record?, show c.activeTxs.get? ("tx_" ++ a.uuid) = none from hfresh]
    rfl
  have hlookup : CallSystem.step .values ⟨a.opened c, [], [a.call .lookup]⟩ (.proceed 0 a.now) =
      ⟨a.opened c, [], [a.call .prepare]⟩ := by
    have hrecord : record? ⟨a.opened c, [], [a.call .lookup]⟩ (a.call .lookup).txId =
        some (a.record c) := a.opened_record c
    change proceed .values _ 0 (a.call .lookup) a.now = _
    rw [proceed_lookup rfl hrecord (by simp [record])]
    rfl
  rw [events, run_cons, hbegin, run_cons]
  change run (CallSystem.step .values) ⟨a.opened c, [], [a.call .lookup]⟩ _ = _
  rw [run_cons, hlookup]
  rfl

theorem succeeds_iff_vote : a.Succeeds c ↔ (a.prepared c).2.voteYes = true := by
  obtain ⟨tx, htx⟩ := known_of_prepare (a.opened_record c)
  rw [Succeeds, run_to_prepared hfresh]
  cases hvote : (a.prepared c).2.voteYes with
  | true =>
    refine iff_of_true ?_ rfl
    have hrecord : record? ((a.prepared c).1.advance 0 (a.call .prepare) .apply)
        (a.call .apply).txId = some tx := htx
    rw [if_pos rfl]
    change (proceed _ _ 0 (a.call .apply) a.now).calls.map _ = _
    rw [proceed_apply rfl hrecord]
    rfl
  | false =>
    refine iff_of_false (fun h => ?_) (by simp)
    cases h

/-- **When the transaction succeeds**: in time, with its keys free, at the versions it expects. -/
theorem succeeds_iff :
    a.Succeeds c ↔ ¬ a.Expired ∧ ¬ a.context.Blocked c a.txId ∧ ¬ a.context.ExpectsOther c.keyVersions.current := by
  have hexpired : ((a.record c).withContext (some a.context)).isExpired a.now = false ↔ ¬ a.Expired := by
    simp [TxRecord.isExpired, TxRecord.withContext, record, Expired]
  rw [succeeds_iff_vote hfresh, ← hexpired]
  exact prepare_vote_iff (a.opened_record c) a.now a.context

end

theorem succeeds_new_iff (nodeId : String) (sm : Option ReplicatedStateMachine) :
    a.Succeeds (.new nodeId sm) ↔ ¬ a.Expired ∧ ¬ a.context.ExpectsOther 0 := by
  have hfree : ¬ a.context.Blocked (.new nodeId sm) a.txId := by
    rintro ⟨key, -, holder, hholder, -⟩
    cases hholder
  rw [succeeds_iff (Dict.get?_empty ..), and_iff_right hfree]
  rfl

/-- **What a restart does not tell**: the transaction comes too late; or it expects version `0`, only of
keys that were never written, and nobody has locked a key that it writes; or it expects another version
than `0`, but it has been overtaken, or it is blocked. -/
def Unaffected (a : Attempt) (c : TransactionCoordinator) : Prop :=
  a.Expired ∨
    (¬ a.context.ExpectsOther 0 ∧ ¬ a.context.ExpectsOther c.keyVersions.current ∧
      ¬ a.context.Blocked c a.txId) ∨
    (a.context.ExpectsOther 0 ∧
      (a.context.ExpectsOther c.keyVersions.current ∨ a.context.Blocked c a.txId))
deriving Decidable

end Attempt

def restarted (clock times : Clock) (nodeId : String) (records : List WALRecord) :
    TransactionCoordinator :=
  .new nodeId (Recovered.recover clock times records (some .empty) (some .empty)).stateMachine

/-- A transaction that sets a key, at an expected version. -/
def settingAt (uuid key : String) (version : Int) : Attempt :=
  { uuid, isolationLevel := .serializable, timeoutSeconds := 10, begun := 2, now := 3
    context := ((TransactionContext.new ("tx_" ++ uuid) .serializable 10).set key (.int 7) (some version)).1 }

def setOnce : List CallEvent :=
  [.begin "1" .serializable 10 0, .commit "tx_1" (settingKeys "tx_1" ["x"]) true, .proceed 0 1,
    .proceed 0 1, .proceed 0 1]

end MeshWeaver
