import MeshWeaver.Transactions.Context

/-!
# The transaction coordinator

The critical sections of `TransactionCoordinator`, each of them run under its lock: `begin_transaction`,
`prepare_transaction`, the section of `commit_transaction` that applies the operations, and `rollback_transaction`. A
commit can raise in two places: `int()` of what an `INCREMENT` meets may raise something that the loop does not catch,
and the marker for the write-ahead log may hold an object that is not JSON. In both cases operations have been applied
by then.
-/

namespace MeshWeaver

open Lib

/-- `TxRecord`, without the participants, which the coordinator does not use. -/
structure TxRecord where
  txId : String
  coordinatorId : String
  status : TxStatus
  isolationLevel : TxIsolationLevel
  operations : List TxOperation
  readSet : Dict String Value
  writeSet : Dict String Value
  fencingTokens : Dict String Int
  timeoutSeconds : Rat
  createdAt : Rat
  completedAt : Option Rat
  errorMessage : Option String

namespace TxRecord

variable (tx : TxRecord)

def isExpired (now : Rat) : Bool :=
  if tx.status = .committed ∨ tx.status = .aborted then false
  else now > tx.createdAt + tx.timeoutSeconds

/-- The record with what the context holds, if a context is given. -/
def withContext : Option TransactionContext → TxRecord
  | some ctx =>
    { tx with operations := ctx.operations, readSet := ctx.readSet, writeSet := ctx.writeSet }
  | none => tx

end TxRecord

structure TxPrepareResult where
  txId : String
  participantId : String
  voteYes : Bool
  errorMessage : Option String
  fencingTokens : Dict String Int

/-- The body of the loop of `commit_transaction` over the operations. -/
def TxOperation.apply (objects : PyObjects) (op : TxOperation) (sm : ReplicatedStateMachine) :
    Except PyError ReplicatedStateMachine :=
  match op.opType with
  | .set => .ok { sm with state := sm.state.insert op.key op.value }
  | .increment =>
    (objects.incremented ((sm.get op.key).getD (.int 0)) op.delta).map fun value =>
      { sm with state := sm.state.insert op.key value }
  | .delete => .ok { sm with state := sm.state.erase op.key }

/-- The version of a key is the number of operations on it that were applied. -/
abbrev Versions := Dict String Int

namespace Versions

variable (versions : Versions)

def current (key : String) : Int := (versions.get? key).getD 0

def bump (key : String) : Versions := versions.insert key (versions.current key + 1)

/-- The first operation whose expected version is not the current one: its key, the version it
expects and the current one. -/
def mismatch? (operations : List TxOperation) : Option (String × Int × Int) :=
  operations.findSome? fun op =>
    match op.expectedVersion with
    | some expected =>
      if expected ≠ versions.current op.key then some (op.key, expected, versions.current op.key)
      else none
    | none => none

end Versions

/-- The store together with the versions of its keys. -/
abbrev Versioned := ReplicatedStateMachine × Versions

/-- The loop: an exception leaves what was applied before it. -/
def applyOperations (objects : PyObjects) :
    List TxOperation → Versioned → Versioned × Except PyError Unit
  | [], store => (store, .ok ())
  | op :: operations, (sm, versions) =>
    match op.apply objects sm with
    | .error e => ((sm, versions), .error e)
    | .ok sm => applyOperations objects operations (sm, versions.bump op.key)

/-- The marker of the commit can be encoded: apart from the objects it holds strings and numbers. -/
def TxRecord.serialisable (objects : PyObjects) (tx : TxRecord) : Bool :=
  tx.operations.all (fun op => objects.serialisable op.value) &&
    tx.writeSet.values.all objects.serialisable

structure TransactionCoordinator where
  nodeId : String
  stateMachine : Option ReplicatedStateMachine
  activeTxs : Dict String TxRecord
  keyLocks : Dict String String
  keyVersions : Versions
  fencingTokens : Dict String Int
  tokenCounter : Int
  totalStarted : Nat
  totalCommitted : Nat
  totalAborted : Nat

namespace TransactionCoordinator

def new (nodeId : String) (stateMachine : Option ReplicatedStateMachine) : TransactionCoordinator :=
  { nodeId, stateMachine, activeTxs := .empty, keyLocks := .empty, keyVersions := .empty,
    fencingTokens := .empty, tokenCounter := 0, totalStarted := 0, totalCommitted := 0,
    totalAborted := 0 }

variable (c : TransactionCoordinator)

/-- The coordinator with another record for a transaction. -/
def withTx (txId : String) (tx : TxRecord) : TransactionCoordinator :=
  { c with activeTxs := c.activeTxs.insert txId tx }

/-- `begin_transaction`; `uuid` is `uuid.uuid4().hex[:12]`. -/
def beginTransaction (uuid : String) (isolationLevel : TxIsolationLevel) (timeoutSeconds now : Rat) :
    TransactionCoordinator × TransactionContext :=
  let txId := "tx_" ++ uuid
  let tx : TxRecord :=
    { txId, coordinatorId := c.nodeId, status := .active, isolationLevel, operations := [],
      readSet := .empty, writeSet := .empty, fencingTokens := .empty, timeoutSeconds,
      createdAt := now, completedAt := none, errorMessage := none }
  ({ c.withTx txId tx with totalStarted := c.totalStarted + 1 },
    .new txId isolationLevel timeoutSeconds)

def txReadKey (key : String) : Value :=
  match c.stateMachine with
  | some sm => (sm.get key).getD .none
  | none => .none

/-- The first of the keys that another transaction has locked, and its holder. -/
def lockConflict? (txId : String) (keys : List String) : Option (String × String) :=
  keys.findSome? fun key =>
    match c.keyLocks.get? key with
    | some holder => if holder ≠ "" ∧ holder ≠ txId then some (key, holder) else none
    | none => none

/-- Lock a key and issue a fencing token for it. -/
def grantKey (txId : String) (granted : TransactionCoordinator × Dict String Int) (key : String) :
    TransactionCoordinator × Dict String Int :=
  let (c, tokens) := granted
  let token := c.tokenCounter + 1
  ({ c with keyLocks := c.keyLocks.insert key txId, tokenCounter := token,
            fencingTokens := c.fencingTokens.insert key token },
    tokens.insert key token)

def grantLocks (txId : String) (keys : List String) : TransactionCoordinator × Dict String Int :=
  keys.foldl (grantKey txId) (c, .empty)

def refuse (txId message : String) : TxPrepareResult :=
  { txId, participantId := c.nodeId, voteYes := false, errorMessage := some message,
    fencingTokens := .empty }

def prepareTransaction (now : Rat) (txId : String) (context : Option TransactionContext) :
    TransactionCoordinator × TxPrepareResult :=
  match c.activeTxs.get? txId with
  | none => (c, c.refuse txId ("Transaction '" ++ txId ++ "' not found"))
  | some record =>
    let tx := record.withContext context
    if tx.isExpired now then
      (c.withTx txId { tx with status := .timedOut },
        c.refuse txId "Transaction lease expired before prepare")
    else
      match c.lockConflict? txId tx.writeSet.keys with
      | some (key, holder) =>
        (c.withTx txId tx,
          c.refuse txId ("Lock conflict on key '" ++ key ++ "': held by " ++ holder))
      | none =>
        match c.keyVersions.mismatch? tx.operations with
        | some (key, expected, current) =>
          (c.withTx txId tx,
            c.refuse txId ("OCC version mismatch on key '" ++ key ++ "': expected " ++
              toString expected ++ ", current " ++ toString current))
        | none =>
          let (granted, fencingTokens) := c.grantLocks txId tx.writeSet.keys
          (granted.withTx txId { tx with status := .prepared, fencingTokens },
            { txId, participantId := c.nodeId, voteYes := true, errorMessage := none, fencingTokens })

/-- The locks without those of the keys that the transaction holds. -/
def releaseLocks (txId : String) (keys : List String) (locks : Dict String String) :
    Dict String String :=
  keys.foldl (fun locks key => if locks.get? key = some txId then locks.erase key else locks) locks

variable (objects : PyObjects)

/-- The loop over the operations, up to an exception. -/
def applySection (tx : TxRecord) : TransactionCoordinator × Except PyError Unit :=
  match c.stateMachine with
  | none => (c, .ok ())
  | some sm =>
    let ((sm, keyVersions), outcome) := applyOperations objects tx.operations (sm, c.keyVersions)
    ({ c with stateMachine := some sm, keyVersions }, outcome)

/-- The rest of the section of `commit_transaction` that applies the operations. -/
def settle (now : Rat) (txId : String) (tx : TxRecord) : TransactionCoordinator :=
  { c with
    keyLocks := releaseLocks txId tx.writeSet.keys c.keyLocks,
    activeTxs := c.activeTxs.insert txId { tx with status := .committed, completedAt := some now },
    totalCommitted := c.totalCommitted + 1 }

/-- What is left of `commit_transaction` for a prepared transaction. Its marker is encoded last. Without a
write-ahead log there is none, as if every object could be encoded. -/
def finishCommit (now : Rat) (txId : String) (tx : TxRecord) : TransactionCoordinator × Except PyError Unit :=
  match c.applySection objects tx with
  | (c, .error e) => (c, .error e)
  | (c, .ok ()) =>
    (c.settle now txId tx,
      if tx.serialisable objects then .ok ()
      else .error (.typeError "Object is not JSON serializable"))

def rollbackTransaction (now : Rat) (txId : String) (reason : Option String) :
    TransactionCoordinator × Bool :=
  match c.activeTxs.get? txId with
  | none => (c, false)
  | some tx =>
    ({ c with
        keyLocks := releaseLocks txId tx.writeSet.keys c.keyLocks,
        activeTxs := c.activeTxs.insert txId
          { tx with status := .aborted, errorMessage := reason, completedAt := some now },
        totalAborted := c.totalAborted + 1 },
      true)

end TransactionCoordinator

/-! ### What the sections do -/

theorem TxOperation.apply_other {objects : PyObjects} {op : TxOperation} {sm sm' : ReplicatedStateMachine}
    {key : String} (h : op.apply objects sm = .ok sm') (hkey : op.key ≠ key) : sm'.get key = sm.get key := by
  unfold TxOperation.apply at h
  cases htype : op.opType <;> rw [htype] at h <;> dsimp only at h
  case increment =>
    cases hvalue : objects.incremented ((sm.get op.key).getD (.int 0)) op.delta <;> rw [hvalue] at h <;> cases h
    exact Dict.get?_insert_of_ne _ _ hkey.symm
  case set =>
    cases h
    exact Dict.get?_insert_of_ne _ _ hkey.symm
  case delete =>
    cases h
    exact (Dict.get?_erase ..).trans (if_neg hkey.symm)

theorem TxOperation.apply_values (op : TxOperation) (sm : ReplicatedStateMachine) :
    ∃ sm', op.apply .values sm = .ok sm' := by
  rw [TxOperation.apply]
  cases op.opType with
  | set | delete => exact ⟨_, rfl⟩
  | increment =>
    obtain ⟨z, hz⟩ := PyObjects.incremented_of_countable (PyObjects.countable_values ((sm.get op.key).getD (.int 0)))
      op.delta
    exact ⟨_, by rw [hz]; rfl⟩

/-- The loop completes on the objects that a `Value` stands for elsewhere. -/
theorem applyOperations_values (operations : List TxOperation) (store : Versioned) :
    (applyOperations .values operations store).2 = .ok () := by
  induction operations generalizing store with
  | nil => rfl
  | cons op operations ih =>
    obtain ⟨sm, hsm⟩ := op.apply_values store.1
    rw [applyOperations, hsm]
    exact ih _

namespace Versions

theorem current_bump (versions : Versions) (key k : String) :
    (versions.bump key).current k = versions.current k + if key = k then 1 else 0 := by
  rw [bump, current, Dict.get?_insert]
  by_cases hk : k = key
  · rw [if_pos hk, if_pos hk.symm, hk]
    rfl
  · rw [if_neg hk, if_neg (Ne.symm hk), add_zero]
    rfl

/-- **The versions that the loop leaves**: those of the keys it has come to have moved on. -/
theorem current_applyOperations (objects : PyObjects) (operations : List TxOperation) (store : Versioned) (k : String) :
    store.2.current k ≤ (applyOperations objects operations store).1.2.current k ∧
      (applyOperations objects operations store).1.2.current k ≤
        store.2.current k + (operations.countP fun op => op.key = k : Nat) ∧
      ((applyOperations objects operations store).2 = .ok () →
        (applyOperations objects operations store).1.2.current k =
          store.2.current k + (operations.countP fun op => op.key = k : Nat)) := by
  induction operations generalizing store with
  | nil => simp [applyOperations]
  | cons op operations ih =>
    rw [applyOperations, List.countP_cons]
    cases op.apply objects store.1 with
    | error e => exact ⟨le_rfl, by dsimp only; omega, nofun⟩
    | ok sm =>
      obtain ⟨hlow, hhigh, hexact⟩ := ih (sm, store.2.bump op.key)
      dsimp only at hlow hhigh hexact ⊢
      rw [current_bump] at hlow hhigh hexact
      by_cases hk : op.key = k
      · rw [if_pos hk] at hlow hhigh hexact
        rw [if_pos (decide_eq_true hk)]
        refine ⟨by omega, by omega, fun hok => ?_⟩
        rw [hexact hok]
        omega
      · rw [if_neg hk, add_zero] at hlow hhigh hexact
        rw [if_neg (by simpa using hk), add_zero]
        exact ⟨hlow, hhigh, hexact⟩

theorem mismatch?_eq_none {versions : Versions} {operations : List TxOperation} :
    versions.mismatch? operations = none ↔
      ∀ op ∈ operations, ∀ v, op.expectedVersion = some v → versions.current op.key = v := by
  rw [mismatch?, List.findSome?_eq_none_iff]
  refine forall₂_congr fun op _ => ?_
  cases op.expectedVersion with
  | none => simp
  | some expected => simp [eq_comm]

end Versions

namespace TransactionCoordinator

variable {c : TransactionCoordinator}

theorem lockConflict?_eq_none {txId : String} {keys : List String} :
    c.lockConflict? txId keys = none ↔
      ∀ key ∈ keys, ∀ holder, c.keyLocks.get? key = some holder → holder = "" ∨ holder = txId := by
  rw [lockConflict?, List.findSome?_eq_none_iff]
  refine forall₂_congr fun key _ => ?_
  cases c.keyLocks.get? key with
  | none => simp
  | some holder => simp [or_iff_not_imp_left]

/-- **A commit raises** in the loop, and nothing is released; or the transaction is settled. -/
theorem finishCommit_cases (objects : PyObjects) (c : TransactionCoordinator) (now : Rat) (txId : String)
    (tx : TxRecord) :
    (∃ e, (c.applySection objects tx).2 = .error e ∧
        c.finishCommit objects now txId tx = ((c.applySection objects tx).1, .error e)) ∨
      (c.applySection objects tx).2 = .ok () ∧
        c.finishCommit objects now txId tx = ((c.applySection objects tx).1.settle now txId tx,
          if tx.serialisable objects then .ok ()
          else .error (.typeError "Object is not JSON serializable")) := by
  rw [finishCommit]
  rcases c.applySection objects tx with ⟨c', e | ⟨⟩⟩
  · exact Or.inl ⟨e, rfl, rfl⟩
  · exact Or.inr ⟨rfl, rfl⟩

theorem finishCommit_values (c : TransactionCoordinator) (now : Rat) (txId : String) (tx : TxRecord) :
    c.finishCommit .values now txId tx = ((c.applySection .values tx).1.settle now txId tx, .ok ()) := by
  have hencoded : tx.serialisable .values = true := by simp [TxRecord.serialisable, PyObjects.values]
  have hsection : (c.applySection .values tx).2 = .ok () := by
    unfold applySection
    cases c.stateMachine with
    | none => rfl
    | some sm => exact applyOperations_values ..
  rcases c.finishCommit_cases .values now txId tx with ⟨e, hraised, -⟩ | ⟨-, heq⟩
  · cases hraised.symm.trans hsection
  · rw [heq, hencoded]
    rfl

theorem finishCommit_stateMachine (objects : PyObjects) (now : Rat) (txId : String) (tx : TxRecord) :
    (c.finishCommit objects now txId tx).1.stateMachine =
      c.stateMachine.map fun sm => (applyOperations objects tx.operations (sm, c.keyVersions)).1.1 := by
  have hsection : (c.applySection objects tx).1.stateMachine =
      c.stateMachine.map fun sm => (applyOperations objects tx.operations (sm, c.keyVersions)).1.1 := by
    unfold applySection
    cases hsm : c.stateMachine with
    | none => exact hsm
    | some sm => rfl
  rcases c.finishCommit_cases objects now txId tx with ⟨e, -, heq⟩ | ⟨-, heq⟩ <;> rw [heq] <;> exact hsection

theorem get?_releaseLocks (txId : String) (keys : List String) (locks : Dict String String) (k : String) :
    (releaseLocks txId keys locks).get? k = if k ∈ keys ∧ locks.get? k = some txId then none else locks.get? k := by
  induction keys generalizing locks with
  | nil => simp [releaseLocks]
  | cons key keys ih =>
    rw [releaseLocks, List.foldl_cons, ← releaseLocks, ih]
    by_cases hheld : locks.get? key = some txId
    · rw [if_pos hheld, Dict.get?_erase]
      by_cases hk : k = key
      · simp [hk, hheld]
      · simp [hk]
    · rw [if_neg hheld]
      by_cases hk : k = key
      · simp [hk, hheld]
      · simp [hk]

theorem grantLocks_spec (c : TransactionCoordinator) (txId : String) (keys : List String) :
    ∃ locks tokens counter, (c.grantLocks txId keys).1 =
        { c with keyLocks := locks, fencingTokens := tokens, tokenCounter := counter } ∧
      ∀ k, locks.get? k = if k ∈ keys then some txId else c.keyLocks.get? k := by
  suffices h : ∀ granted : TransactionCoordinator × Dict String Int,
      ∃ locks tokens counter, (keys.foldl (grantKey txId) granted).1 =
          { granted.1 with keyLocks := locks, fencingTokens := tokens, tokenCounter := counter } ∧
        ∀ k, locks.get? k = if k ∈ keys then some txId else granted.1.keyLocks.get? k from
    h (c, .empty)
  induction keys with
  | nil => exact fun granted => ⟨_, _, _, rfl, by simp⟩
  | cons key keys ih =>
    intro granted
    obtain ⟨locks, tokens, counter, heq, hlocks⟩ := ih (grantKey txId granted key)
    refine ⟨locks, tokens, counter, heq, fun k => ?_⟩
    rw [hlocks, grantKey, Dict.get?_insert]
    by_cases hmem : k ∈ keys
    · simp [hmem]
    · simp [hmem]

/-- **What a prepare does** to a known transaction: it refuses and changes the record only, or every
key is free, every expected version current, and the keys are locked. -/
inductive PrepareMove (c : TransactionCoordinator) (txId : String) (tx : TxRecord) :
    TransactionCoordinator × TxPrepareResult → Prop
  | refuses (status : TxStatus) (message : String)
      (unprepared : status = tx.status ∨ status = .timedOut) :
      PrepareMove c txId tx (c.withTx txId { tx with status }, c.refuse txId message)
  | grants (locks : Dict String String) (tokens granted : Dict String Int) (counter : Int)
      (result : TxPrepareResult) (vote : result.voteYes = true)
      (free : ∀ key ∈ tx.writeSet.keys, ∀ holder, c.keyLocks.get? key = some holder →
        holder = "" ∨ holder = txId)
      (current : ∀ op ∈ tx.operations, ∀ v, op.expectedVersion = some v →
        c.keyVersions.current op.key = v)
      (locked : ∀ k, locks.get? k = if k ∈ tx.writeSet.keys then some txId else c.keyLocks.get? k) :
      PrepareMove c txId tx
        (({ c with keyLocks := locks, fencingTokens := tokens,
                   tokenCounter := counter } : TransactionCoordinator).withTx txId
          { tx with status := .prepared, fencingTokens := granted }, result)

theorem prepareMove {txId : String} {record : TxRecord} (hrecord : c.activeTxs.get? txId = some record)
    (now : Rat) (context : Option TransactionContext) :
    PrepareMove c txId (record.withContext context) (c.prepareTransaction now txId context) := by
  unfold prepareTransaction
  rw [hrecord]
  dsimp only
  generalize record.withContext context = tx
  split_ifs with hexpired
  · exact .refuses .timedOut _ (Or.inr rfl)
  cases hfree : c.lockConflict? txId tx.writeSet.keys with
  | some conflict => exact .refuses tx.status _ (Or.inl rfl)
  | none =>
    cases hversions : c.keyVersions.mismatch? tx.operations with
    | some mismatch => exact .refuses tx.status _ (Or.inl rfl)
    | none =>
      obtain ⟨locks, tokens, counter, heq, hlocks⟩ := c.grantLocks_spec txId tx.writeSet.keys
      rw [heq]
      exact .grants locks tokens _ counter _ rfl (lockConflict?_eq_none.mp hfree)
        (Versions.mismatch?_eq_none.mp hversions) hlocks

end TransactionCoordinator

namespace TransactionContext

variable (ctx : TransactionContext)

/-- One of the versions that the operations expect is not this one. -/
def ExpectsOther (version : String → Int) : Prop :=
  ∃ op ∈ ctx.operations, ∃ v ∈ op.expectedVersion, v ≠ version op.key
deriving Decidable

/-- Another transaction than `txId` has locked a key that is written. -/
def Blocked (c : TransactionCoordinator) (txId : String) : Prop :=
  ∃ key ∈ ctx.writeSet.keys, ∃ holder ∈ c.keyLocks.get? key, holder ≠ "" ∧ holder ≠ txId
deriving Decidable

theorem mismatch?_eq_none_iff (versions : Versions) :
    versions.mismatch? ctx.operations = none ↔ ¬ ctx.ExpectsOther versions.current := by
  rw [Versions.mismatch?_eq_none]
  simp only [ExpectsOther, not_exists, not_and, not_not, Option.mem_def]
  exact ⟨fun h op hop v hv => (h op hop v hv).symm, fun h op hop v hv => (h op hop v hv).symm⟩

theorem lockConflict?_eq_none_iff (c : TransactionCoordinator) (txId : String) :
    c.lockConflict? txId ctx.writeSet.keys = none ↔ ¬ ctx.Blocked c txId := by
  rw [TransactionCoordinator.lockConflict?_eq_none]
  simp only [Blocked, not_exists, not_and, not_not, Option.mem_def, or_iff_not_imp_left]

end TransactionContext

/-- **When a prepare succeeds.** -/
theorem TransactionCoordinator.prepare_vote_iff {c : TransactionCoordinator} {txId : String}
    {record : TxRecord} (hrecord : c.activeTxs.get? txId = some record) (now : Rat) (ctx : TransactionContext) :
    (c.prepareTransaction now txId (some ctx)).2.voteYes = true ↔
      (record.withContext (some ctx)).isExpired now = false ∧ ¬ ctx.Blocked c txId ∧
        ¬ ctx.ExpectsOther c.keyVersions.current := by
  rw [← ctx.lockConflict?_eq_none_iff, ← ctx.mismatch?_eq_none_iff]
  unfold prepareTransaction
  rw [hrecord]
  dsimp only
  rw [show (record.withContext (some ctx)).writeSet = ctx.writeSet from rfl,
    show (record.withContext (some ctx)).operations = ctx.operations from rfl]
  cases (record.withContext (some ctx)).isExpired now with
  | true => simp [refuse]
  | false =>
    cases c.lockConflict? txId ctx.writeSet.keys with
    | some conflict => simp [refuse]
    | none =>
      cases c.keyVersions.mismatch? ctx.operations with
      | some mismatch => simp [refuse]
      | none => simp

end MeshWeaver
