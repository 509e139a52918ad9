import MeshWeaver.Transactions.Invariant

/-!
# Calls to the coordinator

Here the methods of the coordinator are called directly, in any order and for any transaction: `prepare_transaction`
and `rollback_transaction` are one section each, and `commit_transaction` goes on section by section while other calls
run. A successful prepare covers the operations it records; the point is that nothing else is ever applied.
-/

namespace MeshWeaver

open Lib
open TransactionCoordinator

/-- The next section of a `commit_transaction`, or what it has returned or raised. -/
inductive CommitPhase where
  | lookup
  | prepare
  | apply
  | abort (reason : Option String)
  | returned (answer : Except PyError Bool)
deriving DecidableEq

/-- A call of `commit_transaction(tx_id, …)`: the transaction's context as it is at the call, and whether
it is passed. -/
structure CommitCall where
  txId : String
  context : TransactionContext
  passed : Bool
  phase : CommitPhase

def CommitCall.argument (call : CommitCall) : Option TransactionContext :=
  if call.passed then some call.context else none

/-- The coordinator, the operations that successful prepares have covered so far, and the calls of
`commit_transaction`. -/
structure CallSystem where
  coordinator : TransactionCoordinator
  covered : List (String × TxOperation)
  calls : List CommitCall

inductive CallEvent where
  | begin (uuid : String) (isolationLevel : TxIsolationLevel) (timeoutSeconds now : Rat)
  | prepare (now : Rat) (txId : String) (context : Option TransactionContext)
  | commit (txId : String) (context : TransactionContext) (passed : Bool)
  | proceed (k : Nat) (now : Rat)
  | rollback (now : Rat) (txId : String) (reason : Option String)

namespace CallSystem

variable (objects : PyObjects) (s : CallSystem)

def init (nodeId : String) (stateMachine : Option ReplicatedStateMachine) : CallSystem :=
  ⟨.new nodeId stateMachine, [], []⟩

def record? (txId : String) : Option TxRecord := s.coordinator.activeTxs.get? txId

/-- The operations that a prepare covers, if it succeeds. -/
def covers (txId : String) (out : TransactionCoordinator × TxPrepareResult) :
    List (String × TxOperation) :=
  match out.1.activeTxs.get? txId with
  | some tx => if out.2.voteYes then tx.operations.map fun op => (txId, op) else []
  | none => []

def prepare (now : Rat) (txId : String) (context : Option TransactionContext) :
    CallSystem × TxPrepareResult :=
  let out := s.coordinator.prepareTransaction now txId context
  ({ s with coordinator := out.1, covered := s.covered ++ covers txId out }, out.2)

def rollback (now : Rat) (txId : String) (reason : Option String) : CallSystem :=
  { s with coordinator := (s.coordinator.rollbackTransaction now txId reason).1 }

def advance (k : Nat) (call : CommitCall) (phase : CommitPhase) : CallSystem :=
  { s with calls := s.calls.set k { call with phase } }

def proceed (k : Nat) (call : CommitCall) (now : Rat) : CallSystem :=
  match call.phase with
  | .lookup =>
    match s.record? call.txId with
    | none => s.advance k call (.returned (.ok false))
    | some tx => s.advance k call (if tx.status = .prepared then .apply else .prepare)
  | .prepare =>
    let (s', result) := s.prepare now call.txId call.argument
    s'.advance k call (if result.voteYes then .apply else .abort result.errorMessage)
  | .apply =>
    match s.record? call.txId with
    | none => s
    | some tx =>
      let (coordinator, outcome) := s.coordinator.finishCommit objects now call.txId tx
      { s with coordinator }.advance k call (.returned (outcome.map fun _ => true))
  | .abort reason => (s.rollback now call.txId reason).advance k call (.returned (.ok false))
  | .returned _ => s

/-- `uuid4()` does not return an id twice. -/
def step : CallEvent → CallSystem
  | .begin uuid isolationLevel timeoutSeconds now =>
    match s.record? ("tx_" ++ uuid) with
    | some _ => s
    | none =>
      { s with coordinator := (s.coordinator.beginTransaction uuid isolationLevel timeoutSeconds now).1 }
  | .prepare now txId context => (s.prepare now txId context).1
  | .commit txId context passed =>
    { s with calls := s.calls ++ [{ txId, context, passed, phase := .lookup }] }
  | .proceed k now =>
    match s.calls[k]? with
    | none => s
    | some call => s.proceed objects k call now
  | .rollback now txId reason => s.rollback now txId reason

/-- The commit call whose operations an event applies. -/
def applies (ev : CallEvent) : Option CommitCall :=
  match ev with
  | .proceed k _ => s.calls[k]?.filter fun call => call.phase = .apply
  | _ => none

def grants (ev : CallEvent) : Option String :=
  match ev with
  | .prepare now txId context => if (s.prepare now txId context).2.voteYes then some txId else none
  | .proceed k now =>
    match s.calls[k]? with
    | some call =>
      if call.phase = .prepare ∧ (s.prepare now call.txId call.argument).2.voteYes then some call.txId
      else none
    | none => none
  | _ => none

/-! ### Careful calls -/

/-- A commit of the transaction waits for the section that applies its operations. -/
def Applying (txId : String) : Prop := ∃ call ∈ s.calls, call.txId = txId ∧ call.phase = .apply
deriving Decidable

def Prepared (txId : String) : Prop := (s.record? txId).map TxRecord.status = some .prepared
deriving Decidable

def recorded (txId : String) : List TxOperation := ((s.record? txId).map TxRecord.operations).getD []

/-- A transaction is not prepared while a commit of it waits for its last section; once it is prepared, not
with other operations; and never with operations on keys that its context does not write. -/
structure PreparesCarefully (txId : String) (context : Option TransactionContext) : Prop where
  calm : ¬ s.Applying txId
  same : s.Prepared txId → ∀ ctx ∈ context, ctx.operations = s.recorded txId
  written : ∀ ctx ∈ context, ctx.Written

instance (txId : String) (context : Option TransactionContext) :
    Decidable (s.PreparesCarefully txId context) :=
  decidable_of_iff (¬ s.Applying txId ∧
    (s.Prepared txId → ∀ ctx ∈ context, ctx.operations = s.recorded txId) ∧ ∀ ctx ∈ context, ctx.Written)
    ⟨fun h => ⟨h.1, h.2.1, h.2.2⟩, fun h => ⟨h.1, h.2, h.3⟩⟩

/-- What the next section of a commit may meet: where it is going to apply what was prepared before,
the record is what the context holds. -/
def ProceedsCarefully (call : CommitCall) : Prop :=
  match call.phase with
  | .lookup =>
    s.Prepared call.txId → ¬ s.Applying call.txId ∧ s.recorded call.txId = call.context.operations
  | .prepare =>
    s.PreparesCarefully call.txId call.argument ∧
      (call.passed = false → s.recorded call.txId = call.context.operations)
  | .abort _ => ¬ s.Applying call.txId
  | .apply | .returned _ => True

instance (call : CommitCall) : Decidable (s.ProceedsCarefully call) := by
  unfold ProceedsCarefully
  cases call.phase <;> infer_instance

def Careful (ev : CallEvent) : Prop :=
  match ev with
  | .prepare _ txId context => s.PreparesCarefully txId context
  | .proceed k _ => ∀ call ∈ s.calls[k]?, s.ProceedsCarefully call
  | .rollback _ txId _ => ¬ s.Applying txId
  | .begin .. | .commit .. => True

instance : ∀ ev, Decidable (s.Careful ev)
  | .begin .. | .commit .. => .isTrue trivial
  | .prepare .. => inferInstanceAs (Decidable (s.PreparesCarefully _ _))
  | .proceed .. => inferInstanceAs (Decidable (∀ call ∈ _, s.ProceedsCarefully call))
  | .rollback .. => inferInstanceAs (Decidable (¬ s.Applying _))

/-! ### The invariant -/

/-- Every operation in the record is covered, and the transaction holds the lock of its key. -/
def Sound (s : CallSystem) (txId : String) (tx : TxRecord) : Prop :=
  ∀ op ∈ tx.operations,
    (txId, op) ∈ s.covered ∧ s.coordinator.keyLocks.get? op.key = some txId

structure Recorded (s : CallSystem) (txId : String) (tx : TxRecord) : Prop where
  nonempty : txId ≠ ""
  written : ∀ op ∈ tx.operations, op.key ∈ tx.writeSet.keys
  sound : tx.status = .prepared → s.Sound txId tx

/-- What a commit is about to apply is what its context holds. -/
def Ready (s : CallSystem) (call : CommitCall) : Prop :=
  ∃ tx, s.record? call.txId = some tx ∧ s.Sound call.txId tx ∧
    tx.operations = call.context.operations

/-- How many commits of the transaction wait for the section that applies its operations. -/
def waiting (s : CallSystem) (txId : String) : Nat :=
  s.calls.countP fun call => call.txId = txId ∧ call.phase = .apply

structure Inv (s : CallSystem) : Prop where
  records : ∀ txId tx, s.record? txId = some tx → s.Recorded txId tx
  ready : ∀ call ∈ s.calls, call.phase = .apply → s.Ready call
  unique : ∀ txId, s.waiting txId ≤ 1

/-- What a section of one transaction leaves to the others. -/
structure Frames (txId : String) (s s' : CallSystem) : Prop where
  calls : s'.calls = s.calls
  records : ∀ id, id ≠ txId → s'.record? id = s.record? id
  locks : ∀ id k, id ≠ txId → id ≠ "" → s.coordinator.keyLocks.get? k = some id →
    s'.coordinator.keyLocks.get? k = some id
  covered : s.covered ⊆ s'.covered

variable {objects s} {s' : CallSystem} {tx : TxRecord} {txId : String} {call : CommitCall}
  {context : Option TransactionContext} {now : Rat} {k : Nat} {ev : CallEvent} {op : TxOperation}

theorem waiting_eq_zero_iff : s.waiting txId = 0 ↔ ¬ s.Applying txId := by
  simp [waiting, Applying, List.countP_eq_zero]

theorem waiting_advance (hcall : s.calls[k]? = some call) (phase : CommitPhase) (txId : String) :
    (s.advance k call phase).waiting txId + (if call.txId = txId ∧ call.phase = .apply then 1 else 0) =
      s.waiting txId + if call.txId = txId ∧ phase = .apply then 1 else 0 := by
  obtain ⟨hk, rfl⟩ := List.getElem?_eq_some_iff.mp hcall
  have hle := List.boole_getElem_le_countP (p := fun call => call.txId = txId ∧ call.phase = .apply) hk
  rw [waiting, advance, List.countP_set hk, waiting]
  simp only [decide_eq_true_eq] at hle ⊢
  omega

theorem Frames.sound {id : String} (hframes : Frames txId s s')
    (hne : id ≠ txId) (hid : id ≠ "") (hsound : s.Sound id tx) : s'.Sound id tx := by
  intro op hop
  obtain ⟨hcovered, hlock⟩ := hsound op hop
  exact ⟨hframes.covered hcovered, hframes.locks id op.key hne hid hlock⟩

theorem Inv.change (hinv : s.Inv) (txId : String) (hframes : Frames txId s s')
    (hcalm : ¬ s.Applying txId) (hown : ∀ tx, s'.record? txId = some tx → s'.Recorded txId tx) : s'.Inv where
  records := fun id tx htx => by
    by_cases hid : id = txId
    · subst hid
      exact hown tx htx
    · rw [hframes.records id hid] at htx
      have hrecorded := hinv.records id tx htx
      exact ⟨hrecorded.nonempty, hrecorded.written,
        fun hprepared => hframes.sound hid hrecorded.nonempty (hrecorded.sound hprepared)⟩
  ready := fun call hcall hphase => by
    rw [hframes.calls] at hcall
    have hid : call.txId ≠ txId := fun hid => hcalm ⟨call, hcall, hid, hphase⟩
    obtain ⟨tx, htx, hsound, hops⟩ := hinv.ready call hcall hphase
    exact ⟨tx, (hframes.records _ hid).trans htx,
      hframes.sound hid (hinv.records _ tx htx).nonempty hsound, hops⟩
  unique := fun id => by
    rw [waiting, hframes.calls]
    exact hinv.unique id

theorem Inv.advance (hinv : s.Inv) (hcall : s.calls[k]? = some call) {phase : CommitPhase}
    (hready : phase = .apply → s.Ready call ∧ ¬ s.Applying call.txId) : (s.advance k call phase).Inv where
  records := fun id tx htx => by
    have hrecorded := hinv.records id tx htx
    exact ⟨hrecorded.nonempty, hrecorded.written, hrecorded.sound⟩
  ready := fun a ha hphase => by
    rcases List.mem_or_eq_of_mem_set ha with hold | rfl
    · exact hinv.ready a hold hphase
    · exact (hready hphase).1
  unique := fun id => by
    have hcount := waiting_advance hcall phase id
    have hle := hinv.unique id
    by_cases hnew : call.txId = id ∧ phase = .apply
    · have hnone := waiting_eq_zero_iff.mpr (hready hnew.2).2
      rw [hnew.1] at hnone
      rw [if_pos hnew] at hcount
      omega
    · rw [if_neg hnew] at hcount
      omega

/-- **What a prepare does** to a known transaction: it refuses, and changes the record only; or it covers
what it records, and has locked what is written. -/
inductive PrepareCase (s : CallSystem) (txId : String) (tx : TxRecord) :
    CallSystem × TxPrepareResult → Prop
  | refused (s' : CallSystem) (result : TxPrepareResult) (tx' : TxRecord)
      (vote : result.voteYes = false) (frames : Frames txId s s') (record : s'.record? txId = some tx')
      (operations : tx'.operations = tx.operations) (written : tx'.writeSet = tx.writeSet)
      (status : tx'.status = .prepared → tx.status = .prepared) (covered : s'.covered = s.covered)
      (locks : s'.coordinator.keyLocks = s.coordinator.keyLocks) :
      PrepareCase s txId tx (s', result)
  | granted (s' : CallSystem) (result : TxPrepareResult) (tx' : TxRecord)
      (vote : result.voteYes = true) (frames : Frames txId s s') (record : s'.record? txId = some tx')
      (operations : tx'.operations = tx.operations) (written : tx'.writeSet = tx.writeSet)
      (covered : ∀ op ∈ tx.operations, (txId, op) ∈ s'.covered)
      (locked : ∀ key ∈ tx.writeSet.keys, s'.coordinator.keyLocks.get? key = some txId) :
      PrepareCase s txId tx (s', result)

theorem prepareCase (htx : s.record? txId = some tx) (now : Rat) (context : Option TransactionContext) :
    PrepareCase s txId (tx.withContext context) (s.prepare now txId context) := by
  have hmove := prepareMove htx now context
  unfold prepare
  generalize s.coordinator.prepareTransaction now txId context = out at hmove
  generalize tx.withContext context = tx at hmove ⊢
  cases hmove with
  | refuses status message unprepared =>
    have hcovers : covers txId (s.coordinator.withTx txId { tx with status },
        s.coordinator.refuse txId message) = [] := by
      rw [covers, withTx, Dict.get?_insert_self]
      rfl
    refine .refused _ _ { tx with status } rfl
      ⟨rfl, fun id hid => get?_insert_of_ne hid, fun _ _ _ _ h => h, by simp⟩
      (Dict.get?_insert_self ..) rfl rfl ?_ (by rw [hcovers, List.append_nil]) rfl
    intro hprepared
    rcases unprepared with hsame | hexpired
    · exact hsame.symm.trans hprepared
    · exact nomatch hprepared.symm.trans hexpired
  | grants locks tokens granted counter result vote free current locked =>
    have hcovers : ∀ op ∈ tx.operations, (txId, op) ∈ covers txId
        (({ s.coordinator with keyLocks := locks, fencingTokens := tokens,
                               tokenCounter := counter } : TransactionCoordinator).withTx txId
          { tx with status := .prepared, fencingTokens := granted }, result) := by
      intro op hop
      rw [covers, withTx, Dict.get?_insert_self]
      simpa [vote] using hop
    refine .granted _ _ { tx with status := .prepared, fencingTokens := granted } vote
      ⟨rfl, fun id hid => get?_insert_of_ne hid, fun id k hne hid hheld => ?_, by simp⟩
      (Dict.get?_insert_self ..) rfl rfl (fun op hop => List.mem_append_right _ (hcovers op hop))
      fun key hkey => ?_
    · -- a key that another transaction has locked is not granted
      change locks.get? k = some id
      rwa [locked, if_neg fun hk => (free k hk id hheld).elim hid hne]
    · change locks.get? key = some txId
      rw [locked, if_pos hkey]

theorem prepare_unknown (hnone : s.record? txId = none) :
    (s.prepare now txId context).1 = s ∧ (s.prepare now txId context).2.voteYes = false := by
  have hprepare : s.coordinator.prepareTransaction now txId context =
      (s.coordinator, s.coordinator.refuse txId ("Transaction '" ++ txId ++ "' not found")) := by
    rw [prepareTransaction, show s.coordinator.activeTxs.get? txId = none from hnone]
  have hcovers : covers txId (s.coordinator,
      s.coordinator.refuse txId ("Transaction '" ++ txId ++ "' not found")) = [] := by
    rw [covers, show s.coordinator.activeTxs.get? txId = none from hnone]
  rw [prepare, hprepare]
  exact ⟨by rw [hcovers, List.append_nil], rfl⟩

theorem PreparesCarefully.sound (hcareful : s.PreparesCarefully txId context) (htx : s.record? txId = some tx)
    (hrecorded : s.Recorded txId tx) (hprepared : tx.status = .prepared) :
    s.Sound txId (tx.withContext context) := by
  cases context with
  | none => exact hrecorded.sound hprepared
  | some ctx =>
    have hstatus : s.Prepared txId := by rw [Prepared, htx, Option.map_some, hprepared]
    have hsame : ctx.operations = tx.operations := by
      rw [hcareful.same hstatus ctx rfl, recorded, htx]
      rfl
    intro op hop
    exact hrecorded.sound hprepared op (hsame ▸ hop)

theorem Recorded.checked (hrecorded : s.Recorded txId tx) (hwritten : ∀ ctx ∈ context, ctx.Written) :
    (tx.withContext context).status = tx.status ∧
      ∀ op ∈ (tx.withContext context).operations, op.key ∈ (tx.withContext context).writeSet.keys := by
  cases context with
  | none => exact ⟨rfl, hrecorded.written⟩
  | some ctx => exact ⟨rfl, hwritten ctx rfl⟩

section invariant
variable (hinv : s.Inv)
include hinv

theorem Inv.prepare (hcareful : s.PreparesCarefully txId context) : (s.prepare now txId context).1.Inv := by
  cases htx : s.record? txId with
  | none =>
    rwa [(prepare_unknown htx).1]
  | some tx =>
    have hrecorded := hinv.records txId tx htx
    obtain ⟨hstatus, hwritten⟩ := hrecorded.checked hcareful.written
    have hcase := prepareCase htx now context
    generalize s.prepare now txId context = out at hcase
    cases hcase with
    | refused s' result tx' vote frames record operations written status covered locks =>
      refine hinv.change txId frames hcareful.calm fun other hother => ?_
      obtain rfl := Option.some.inj (record.symm.trans hother)
      refine ⟨hrecorded.nonempty, by rwa [operations, written], fun hprepared => ?_⟩
      rw [Sound, operations, covered, locks]
      exact hcareful.sound htx hrecorded (hstatus.symm.trans (status hprepared))
    | granted s' result tx' vote frames record operations written covered locked =>
      refine hinv.change txId frames hcareful.calm fun other hother => ?_
      obtain rfl := Option.some.inj (record.symm.trans hother)
      refine ⟨hrecorded.nonempty, by rwa [operations, written], fun _ op hop => ?_⟩
      rw [operations] at hop
      exact ⟨covered op hop, locked _ (hwritten op hop)⟩

theorem Inv.prepare_ready (hcareful : s.PreparesCarefully call.txId call.argument)
    (hsame : call.passed = false → s.recorded call.txId = call.context.operations)
    (hvote : (s.prepare now call.txId call.argument).2.voteYes = true) :
    (s.prepare now call.txId call.argument).1.Ready call := by
  cases htx : s.record? call.txId with
  | none => exact nomatch hvote.symm.trans (prepare_unknown htx).2
  | some tx =>
    have hops : (tx.withContext call.argument).operations = call.context.operations := by
      rw [CommitCall.argument]
      cases hpassed : call.passed with
      | true => rfl
      | false =>
        rw [← hsame hpassed, recorded, htx]
        rfl
    obtain ⟨-, hwritten⟩ := (hinv.records _ tx htx).checked hcareful.written
    have hcase := prepareCase htx now call.argument
    cases hcase with
    | refused s' result tx' vote => exact nomatch hvote.symm.trans vote
    | granted s' result tx' vote frames record operations written covered locked =>
      refine ⟨tx', record, fun op hop => ?_, operations.trans hops⟩
      rw [operations] at hop
      exact ⟨covered op hop, locked _ (hwritten op hop)⟩

theorem Inv.rollback {reason : Option String} (hcalm : ¬ s.Applying txId) : (s.rollback now txId reason).Inv := by
  unfold CallSystem.rollback rollbackTransaction
  cases htx : s.coordinator.activeTxs.get? txId with
  | none => exact hinv
  | some tx =>
    have hrecorded := hinv.records txId tx htx
    refine hinv.change txId ⟨rfl, fun id hid => get?_insert_of_ne hid,
      fun id k hne _ => (releaseLocks_iff hne).mpr, fun _ h => h⟩ hcalm fun other hother => ?_
    obtain rfl := Option.some.inj ((Dict.get?_insert_self ..).symm.trans hother)
    exact ⟨hrecorded.nonempty, hrecorded.written, fun hprepared => nomatch hprepared⟩

theorem Inv.begin (uuid : String) (isolationLevel : TxIsolationLevel) (timeoutSeconds now : Rat) :
    (s.step objects (.begin uuid isolationLevel timeoutSeconds now)).Inv := by
  rw [CallSystem.step]
  cases htx : s.record? ("tx_" ++ uuid) with
  | some tx => exact hinv
  | none =>
    have hcalm : ¬ s.Applying ("tx_" ++ uuid) := by
      rintro ⟨call, hcall, hid, hphase⟩
      obtain ⟨tx, hknown, -⟩ := hinv.ready call hcall hphase
      rw [hid, htx] at hknown
      cases hknown
    refine hinv.change _ ⟨rfl, fun id hid => get?_insert_of_ne hid, fun _ _ _ _ h => h, fun _ h => h⟩
      hcalm fun other hother => ?_
    obtain rfl := Option.some.inj ((Dict.get?_insert_self ..).symm.trans hother)
    exact ⟨by simp, fun op hop => (nomatch hop), fun h => (nomatch h)⟩

theorem Inv.calm_after (hcall : s.calls[k]? = some call) (hphase : call.phase = .apply)
    (answer : Except PyError Bool) : ¬ (s.advance k call (.returned answer)).Applying call.txId := by
  have hcount := waiting_advance hcall (.returned answer) call.txId
  have hle := hinv.unique call.txId
  rw [if_pos ⟨rfl, hphase⟩, if_neg nofun] at hcount
  exact waiting_eq_zero_iff.mp (by omega)

theorem Inv.apply (hcall : s.calls[k]? = some call) (hphase : call.phase = .apply)
    (htx : s.record? call.txId = some tx) (now : Rat) :
    ({ s with coordinator := (s.coordinator.finishCommit objects now call.txId tx).1 }.advance k call
      (.returned ((s.coordinator.finishCommit objects now call.txId tx).2.map fun _ => true))).Inv := by
  have hrecorded := hinv.records call.txId tx htx
  have hreturned : ∀ answer, (s.advance k call (.returned answer)).Inv :=
    fun answer => hinv.advance hcall fun h => nomatch h
  obtain ⟨sm, versions, hsection, -⟩ := applySection_eq objects s.coordinator tx
  rcases s.coordinator.finishCommit_cases objects now call.txId tx with ⟨e, -, heq⟩ | ⟨-, heq⟩
  · -- the transaction stays prepared, with its locks
    rw [heq, hsection]
    obtain ⟨records, ready, unique⟩ := hreturned (.error e)
    exact ⟨fun id tx htx => ⟨(records id tx htx).nonempty, (records id tx htx).written, (records id tx htx).sound⟩,
      ready, unique⟩
  · rw [heq, hsection]
    refine (hreturned _).change call.txId ⟨rfl, fun id hid => get?_insert_of_ne hid,
      fun id key hne _ => (releaseLocks_iff hne).mpr, fun _ h => h⟩ (hinv.calm_after hcall hphase _)
      fun other hother => ?_
    obtain rfl := Option.some.inj ((Dict.get?_insert_self ..).symm.trans hother)
    exact ⟨hrecorded.nonempty, hrecorded.written, fun hprepared => nomatch hprepared⟩

theorem Inv.proceed (hcall : s.calls[k]? = some call) (hcareful : s.ProceedsCarefully call) (now : Rat) :
    (s.proceed objects k call now).Inv := by
  unfold ProceedsCarefully at hcareful
  unfold CallSystem.proceed
  cases hphase : call.phase with
  | lookup =>
    rw [hphase] at hcareful
    cases htx : s.record? call.txId with
    | none => exact hinv.advance hcall fun h => nomatch h
    | some tx =>
      refine hinv.advance hcall fun happly => ?_
      have hprepared : tx.status = .prepared := by
        by_contra hnot
        rw [if_neg hnot] at happly
        cases happly
      obtain ⟨hcalm, hsame⟩ := hcareful (by rw [Prepared, htx, Option.map_some, hprepared])
      rw [recorded, htx] at hsame
      exact ⟨⟨tx, htx, (hinv.records _ tx htx).sound hprepared, hsame⟩, hcalm⟩
  | prepare =>
    rw [hphase] at hcareful
    obtain ⟨hprepares, hsame⟩ := hcareful
    have hcalm : ¬ (s.prepare now call.txId call.argument).1.Applying call.txId := hprepares.calm
    refine (hinv.prepare hprepares).advance hcall fun happly => ⟨?_, hcalm⟩
    refine hinv.prepare_ready hprepares hsame ?_
    by_contra hvote
    exact nomatch (if_neg hvote).symm.trans happly
  | apply =>
    cases htx : s.record? call.txId with
    | none => exact hinv
    | some tx => exact hinv.apply hcall hphase htx now
  | abort reason =>
    rw [hphase] at hcareful
    exact (hinv.rollback hcareful).advance hcall fun h => nomatch h
  | returned answer => exact hinv

theorem Inv.commit (txId : String) (context : TransactionContext) (passed : Bool) :
    (s.step objects (.commit txId context passed)).Inv where
  records := fun id tx htx => by
    have hrecorded := hinv.records id tx htx
    exact ⟨hrecorded.nonempty, hrecorded.written, hrecorded.sound⟩
  ready := fun call hcall hphase => by
    rcases List.mem_append.mp hcall with hold | hnew
    · exact hinv.ready call hold hphase
    · rw [List.mem_singleton.mp hnew] at hphase
      cases hphase
  unique := fun id => by
    rw [waiting, CallSystem.step, List.countP_append, List.countP_singleton, if_neg (by simp)]
    exact hinv.unique id

theorem Inv.step (hcareful : s.Careful ev) : (s.step objects ev).Inv := by
  cases ev with
  | begin uuid isolationLevel timeoutSeconds now =>
    exact hinv.begin uuid isolationLevel timeoutSeconds now
  | prepare now txId context => exact hinv.prepare hcareful
  | commit txId context passed => exact hinv.commit txId context passed
  | proceed k now =>
    rw [CallSystem.step]
    cases hcall : s.calls[k]? with
    | none => exact hinv
    | some call => exact hinv.proceed hcall (hcareful call hcall) now
  | rollback now txId reason => exact hinv.rollback hcareful

end invariant

theorem inv_init (nodeId : String) (stateMachine : Option ReplicatedStateMachine) :
    (init nodeId stateMachine).Inv where
  records := fun _ _ h => nomatch h
  ready := fun _ h => nomatch h
  unique := fun _ => Nat.zero_le _

/-! ### Only what is covered is applied -/

theorem applies_eq_some (h : s.applies ev = some call) :
    ∃ k now, ev = .proceed k now ∧ s.calls[k]? = some call ∧ call.phase = .apply := by
  cases ev with
  | proceed k now =>
    obtain ⟨hcall, hphase⟩ := Option.filter_eq_some_iff.mp h
    exact ⟨k, now, rfl, hcall, of_decide_eq_true hphase⟩
  | _ => cases h

theorem Inv.applies_ready (hinv : s.Inv) (happlies : s.applies ev = some call) : s.Ready call := by
  obtain ⟨k, now, -, hcall, hphase⟩ := applies_eq_some happlies
  exact hinv.ready call (List.mem_of_getElem? hcall) hphase

/-- **A commit applies what its context holds**, and nothing else, up to an exception and wholly if it
returns, under the locks of its transaction. -/
structure AppliesContext (objects : PyObjects) (s : CallSystem) (ev : CallEvent) (call : CommitCall) : Prop where
  exact : (s.step objects ev).coordinator.stateMachine = s.coordinator.stateMachine.map fun sm =>
    (applyOperations objects call.context.operations (sm, s.coordinator.keyVersions)).1.1
  whole : ∀ k now sm, ev = .proceed k now → s.coordinator.stateMachine = some sm →
    (s.step objects ev).calls[k]? = some { call with phase := .returned (.ok true) } →
    (applyOperations objects call.context.operations (sm, s.coordinator.keyVersions)).2 = .ok ()
  locked : ∀ op ∈ call.context.operations, s.coordinator.keyLocks.get? op.key = some call.txId

theorem Inv.appliesContext (hinv : s.Inv) (happlies : s.applies ev = some call) :
    s.AppliesContext objects ev call := by
  obtain ⟨tx, htx, hsound, hops⟩ := hinv.applies_ready happlies
  obtain ⟨k, now, rfl, hcall, hphase⟩ := applies_eq_some happlies
  have hstep : s.step objects (.proceed k now) =
      { s with coordinator := (s.coordinator.finishCommit objects now call.txId tx).1 }.advance k call
        (.returned ((s.coordinator.finishCommit objects now call.txId tx).2.map fun _ => true)) := by
    simp only [CallSystem.step, hcall, CallSystem.proceed, hphase, htx]
  refine ⟨?_, ?_, fun op hop => (hsound op (hops ▸ hop)).2⟩
  · rw [hstep, ← hops]
    exact finishCommit_stateMachine objects now call.txId tx
  · intro k' now' sm hev hsm hreturned
    cases hev
    rw [hstep, CallSystem.advance, List.getElem?_set_self (List.getElem?_eq_some_iff.mp hcall).1,
      Option.some.injEq, CommitCall.mk.injEq, CommitPhase.returned.injEq] at hreturned
    rcases s.coordinator.finishCommit_cases objects now call.txId tx with ⟨e, -, heq⟩ | ⟨hwhole, -⟩
    · rw [heq] at hreturned
      cases hreturned.2.2.2
    · rw [applySection, hsm] at hwhole
      rwa [← hops]

theorem mem_covers {id txId : String} {out : TransactionCoordinator × TxPrepareResult}
    (h : (txId, op) ∈ covers id out) : id = txId ∧ out.2.voteYes = true := by
  unfold covers at h
  cases htx : out.1.activeTxs.get? id with
  | none => simp [htx] at h
  | some tx =>
    by_cases hvote : out.2.voteYes = true
    · simp only [htx, hvote, if_true, List.mem_map] at h
      obtain ⟨op', -, heq⟩ := h
      exact ⟨congrArg Prod.fst heq, hvote⟩
    · simp [htx, hvote] at h

theorem covered_proceed (hphase : call.phase ≠ .prepare) : (s.proceed objects k call now).covered = s.covered := by
  unfold CallSystem.proceed
  cases hcase : call.phase with
  | prepare => exact absurd hcase hphase
  | lookup | apply => cases s.record? call.txId <;> rfl
  | abort reason | returned answer => rfl

theorem covered_step (hno : s.grants ev ≠ some txId) (h : (txId, op) ∈ (s.step objects ev).covered) :
    (txId, op) ∈ s.covered := by
  cases ev with
  | begin uuid isolationLevel timeoutSeconds now =>
    rw [step] at h
    cases hknown : s.record? ("tx_" ++ uuid) with
    | some tx | none => rwa [hknown] at h
  | prepare now id context =>
    refine (List.mem_append.mp h).resolve_right fun hnew => hno ?_
    obtain ⟨rfl, hvote⟩ := mem_covers hnew
    exact if_pos hvote
  | commit id context passed | rollback now id reason => exact h
  | proceed k now =>
    rw [step] at h
    cases hcall : s.calls[k]? with
    | none => rwa [hcall] at h
    | some call =>
      simp only [hcall] at h
      by_cases hphase : call.phase = .prepare
      · rw [CallSystem.proceed, hphase] at h
        refine (List.mem_append.mp h).resolve_right fun hnew => hno ?_
        obtain ⟨rfl, hvote⟩ := mem_covers hnew
        rw [grants, hcall]
        exact if_pos ⟨hphase, hvote⟩
      · rwa [covered_proceed hphase] at h

/-- An event applies the operation for a transaction. -/
def AppliesOp (txId : String) (op : TxOperation) (s : CallSystem) (ev : CallEvent) : Prop :=
  ∃ call ∈ s.applies ev, call.txId = txId ∧ ∃ tx ∈ s.record? txId, op ∈ tx.operations
deriving Decidable

theorem Inv.uncovered_not_applied (hinv : s.Inv) {events : List CallEvent}
    (hcareful : Along (CallSystem.step objects) Careful s events)
    (hno : Along (CallSystem.step objects) (fun s ev => s.grants ev ≠ some txId) s events)
    (hop : (txId, op) ∉ s.covered) :
    Along (CallSystem.step objects) (fun s ev => ¬ AppliesOp txId op s ev) s events := by
  refine (hcareful.and hno).of_invariant (I := fun s => s.Inv ∧ (txId, op) ∉ s.covered)
    (fun s ev hs hev => ⟨?_, hs.1.step hev.1, fun hmem => hs.2 (covered_step hev.2 hmem)⟩) ⟨hinv, hop⟩
  rintro ⟨call, happlies, rfl, tx, htx, hmem⟩
  obtain ⟨tx', htx', hsound, -⟩ := hs.1.applies_ready happlies
  obtain rfl := Option.some.inj (htx.symm.trans htx')
  exact hs.2 (hsound op hmem).1

/-- **A refused prepare has no later effect**, and a commit applies what its context holds, in a run of
careful calls. -/
theorem refused_prepare_without_effect (objects : PyObjects) (nodeId : String)
    (stateMachine : Option ReplicatedStateMachine) (events : List CallEvent)
    (h : Along (step objects) Careful (init nodeId stateMachine) events) :
    (∀ pre post now txId ctx, events = pre ++ .prepare now txId (some ctx) :: post →
      let s := run (step objects) (init nodeId stateMachine) pre
      (s.prepare now txId (some ctx)).2.voteYes = false →
      Along (step objects) (fun s ev => s.grants ev ≠ some txId)
        (s.step objects (.prepare now txId (some ctx))) post →
      ∀ op ∈ ctx.operations, (txId, op) ∉ s.covered →
      Along (step objects) (fun s ev => ¬ AppliesOp txId op s ev)
        (s.step objects (.prepare now txId (some ctx))) post) ∧
      Along (step objects) (fun s ev => ∀ call, s.applies ev = some call → s.AppliesContext objects ev call)
        (init nodeId stateMachine) events := by
  have hinit := inv_init nodeId stateMachine
  have hstep : ∀ (s : CallSystem) (ev : CallEvent), s.Inv → s.Careful ev → (s.step objects ev).Inv :=
    fun s ev hs hev => hs.step hev
  refine ⟨?_, h.of_invariant (I := Inv)
    (fun s ev hs hev => ⟨fun call => hs.appliesContext, hs.step hev⟩) hinit⟩
  rintro pre post now txId ctx rfl s hrefused hno op - hop
  have hrest := h.of_append_right
  have hinv : s.Inv := h.of_append_left.invariant (I := Inv) hstep hinit
  refine (hinv.step hrest.1).uncovered_not_applied hrest.2 hno fun hmem => hop ?_
  refine covered_step ?_ hmem
  rw [grants, if_neg (by simp [hrefused])]
  exact nofun

def settingKeys (txId : String) (keys : List String) : TransactionContext :=
  ((TransactionContext.new txId .serializable 10).calls .values (fun _ => .none)
    (keys.map fun key => .set key (.int 1) none)).1

def settingX : TxOperation := { opType := .set, key := "x", value := .int 1 }

/-- A second transaction that wants the key of a prepared one is refused; the first one commits. -/
theorem refused_prepare_without_effect_conflict :
    let start := init "a" (some .empty)
    let pre : List CallEvent :=
      [.begin "1" .serializable 10 0, .begin "2" .serializable 10 0,
        .prepare 1 "tx_1" (some (settingKeys "tx_1" ["x"]))]
    let refused : CallEvent := .prepare 1 "tx_2" (some (settingKeys "tx_2" ["x"]))
    let post : List CallEvent :=
      [.commit "tx_1" (settingKeys "tx_1" ["x"]) true, .commit "tx_2" (settingKeys "tx_2" ["x"]) true,
        .proceed 0 1, .proceed 1 1, .proceed 1 1, .proceed 0 1, .proceed 1 1]
    Along (step .values) (fun s ev => ¬ AppliesOp "tx_2" settingX s ev)
        (run (step .values) start (pre ++ [refused])) post ∧
      Along (step .values) (fun s ev => ∀ call, s.applies ev = some call → s.AppliesContext .values ev call) start
        (pre ++ refused :: post) ∧
      (run (step .values) start (pre ++ refused :: post)).calls.map CommitCall.phase =
        [.returned (.ok true), .returned (.ok false)] := by
  intro start pre refused post
  have h := refused_prepare_without_effect .values "a" (some .empty) (pre ++ refused :: post) (by decide +kernel)
  exact ⟨h.1 pre post 1 "tx_2" _ rfl (by decide +kernel) (by decide +kernel) settingX
    (by decide +kernel) (by decide +kernel), h.2, by decide +kernel⟩

/-- A transaction is prepared for `x`, then again for `x` and `y`, which another one has locked: that is
refused. Its commit sets `y` all the same. -/
theorem refused_prepare_applied :
    let start := init "a" (some .empty)
    let pre : List CallEvent :=
      [.begin "1" .serializable 10 0, .begin "2" .serializable 10 0,
        .prepare 1 "tx_1" (some (settingKeys "tx_1" ["x"])),
        .prepare 1 "tx_2" (some (settingKeys "tx_2" ["y"]))]
    let ctx := settingKeys "tx_1" ["x", "y"]
    let post : List CallEvent := [.commit "tx_1" ctx true, .proceed 0 1, .proceed 0 1]
    let s := run (step .values) start pre
    let op : TxOperation := { opType := .set, key := "y", value := .int 1 }
    (s.prepare 1 "tx_1" (some ctx)).2.voteYes = false ∧
      op ∈ ctx.operations ∧ ("tx_1", op) ∉ s.covered ∧
      Along (step .values) (fun s ev => s.grants ev ≠ some "tx_1")
        (s.step .values (.prepare 1 "tx_1" (some ctx))) post ∧
      ¬ Along (step .values) (fun s ev => ¬ AppliesOp "tx_1" op s ev)
        (s.step .values (.prepare 1 "tx_1" (some ctx))) post ∧
      ((run (step .values) (s.step .values (.prepare 1 "tx_1" (some ctx))) post).coordinator.stateMachine.bind
        fun sm => sm.get "y") = some (.int 1) := by
  decide +kernel

end CallSystem

end MeshWeaver
