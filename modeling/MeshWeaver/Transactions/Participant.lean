import MeshWeaver.Lib.Run
import MeshWeaver.Transactions.Coordinator

/-!
# The participant of a two-phase commit

`_handle_tx_prepare`, `_handle_tx_commit` and `_handle_tx_abort` of `MeshNode`. They work on the
records and locks of the node's own `TransactionCoordinator` but on none of its methods: there is no
check of the locks when a transaction is prepared, and none of their owner when they are released.
-/

namespace MeshWeaver

open Lib

/-- The request datagrams of a two-phase commit. The `tx` of a `TX_PREPARE` is decoded, and it is `none`
where it is missing or empty. -/
inductive TxMessage where
  | prepare (tx : Option TxRecord) (txId : String)
  | commit (txId : String)
  | abort (txId : String)

/-- The payloads of the answers. -/
inductive TxReply where
  | vote (txId : String) (voteYes : Bool) (fencingTokens : Dict String Int)
      (errorMessage : Option String)
  | committed (txId : String)
  | aborted (txId : String)
deriving DecidableEq

/-- What `node.py` imports from `meshweaver.models`. -/
def importedFromModels : List String :=
  ["AppendEntriesRequest", "AppendEntriesResponse", "BackpressureStatus", "ChaosConfig",
    "ConsensusJob", "ConsensusJobStatus", "DistributedBarrierSpec", "DistributedLock",
    "DistributedSemaphoreSpec", "FaultType", "InstallSnapshotRequest", "InstallSnapshotResponse",
    "LoadShedderMetrics", "LockAcquireResult", "LogEntry", "Message", "MessageType",
    "NetworkPartition", "NodeID", "NodeInfo", "RaftCommandType", "StorageConfig",
    "TokenBucketConfig", "TxIsolationLevel", "TxRecord", "TxStatus"]

/-- Evaluating a name of `meshweaver.models` in `node.py`. -/
def evalName (name : String) : Except PyError Unit :=
  if name ∈ importedFromModels then .ok ()
  else .error (.nameError ("name '" ++ name ++ "' is not defined"))

namespace TransactionCoordinator

/-- The body of the loop of `_handle_tx_prepare` over the keys. -/
def promiseKey (txId : String) (granted : TransactionCoordinator × Dict String Int) (key : String) :
    TransactionCoordinator × Dict String Int :=
  let (c, tokens) := granted
  let token := c.tokenCounter + 1
  ({ c with keyLocks := c.keyLocks.insert key txId, tokenCounter := token },
    tokens.insert key token)

def handleTxPrepare (c : TransactionCoordinator) (tx : Option TxRecord) (txId : String) :
    TransactionCoordinator × TxReply :=
  match tx with
  | some tx =>
    let (c, tokens) := tx.writeSet.keys.foldl (promiseKey tx.txId) (c.withTx tx.txId tx, .empty)
    (c, .vote tx.txId true tokens none)
  | none => (c, .vote txId false .empty (some "Invalid tx payload"))

/-- The body of the loop of `_handle_tx_commit` over the operations. The first thing it evaluates is
`TxOperationType`. -/
def commitOperation (op : TxOperation) (sm : ReplicatedStateMachine) :
    Except PyError ReplicatedStateMachine := do
  evalName "TxOperationType"
  match op.opType with
  | .set => return { sm with state := sm.state.insert op.key op.value }
  | .increment =>
    let curr ← ((sm.get op.key).getD (.int 0)).toInt
    return { sm with state := sm.state.insert op.key (.int (curr + op.delta)) }
  | .delete => return { sm with state := sm.state.erase op.key }

def commitOperations : List TxOperation → ReplicatedStateMachine →
    ReplicatedStateMachine × Except PyError Unit
  | [], sm => (sm, .ok ())
  | op :: operations, sm =>
    match commitOperation op sm with
    | .error e => (sm, .error e)
    | .ok sm => commitOperations operations sm

/-- `self._key_locks.pop(key, None)` for each of the keys -/
def popLocks (keys : List String) (locks : Dict String String) : Dict String String :=
  keys.foldl Dict.erase locks

/-- The locks of a transaction are popped and its record gets a status. -/
def endTx (c : TransactionCoordinator) (txId : String) (tx : TxRecord) (status : TxStatus) :
    TransactionCoordinator :=
  { c with keyLocks := popLocks tx.writeSet.keys c.keyLocks,
           activeTxs := c.activeTxs.insert txId { tx with status } }

def handleTxCommit (c : TransactionCoordinator) (txId : String) :
    TransactionCoordinator × Except PyError TxReply :=
  match c.activeTxs.get? txId with
  | none => (c, .ok (.committed txId))
  | some tx =>
    let (sm, outcome) := commitOperations tx.operations (c.stateMachine.getD .empty)
    let c := { c with stateMachine := c.stateMachine.map fun _ => sm }
    match outcome with
    | .error e => (c, .error e)
    | .ok () => (c.endTx txId tx .committed, .ok (.committed txId))

def handleTxAbort (c : TransactionCoordinator) (txId : String) : TransactionCoordinator × TxReply :=
  match c.activeTxs.get? txId with
  | none => (c, .aborted txId)
  | some tx => (c.endTx txId tx .aborted, .aborted txId)

/-- A datagram: when a handler raises, the exception is logged and nothing is answered. -/
def handle (c : TransactionCoordinator) : TxMessage → TransactionCoordinator × Option TxReply
  | .prepare tx txId => (c.handleTxPrepare tx txId).map id some
  | .commit txId => (c.handleTxCommit txId).map id Except.toOption
  | .abort txId => (c.handleTxAbort txId).map id some

/-! ### What the handlers do -/

theorem get?_popLocks (keys : List String) (locks : Dict String String) (k : String) :
    (popLocks keys locks).get? k = if k ∈ keys then none else locks.get? k := by
  induction keys generalizing locks with
  | nil => simp [popLocks]
  | cons key keys ih =>
    rw [popLocks, List.foldl_cons, ← popLocks, ih, Dict.get?_erase]
    by_cases hk : k = key
    · simp [hk]
    · simp [hk]

theorem popLocks_eq_self {keys : List String} {locks : Dict String String}
    (h : ∀ key ∈ keys, locks.get? key = none) : popLocks keys locks = locks := by
  induction keys with
  | nil => rfl
  | cons key keys ih =>
    rw [popLocks, List.foldl_cons, Dict.erase_eq_self (h key List.mem_cons_self)]
    exact ih fun k hk => h k (List.mem_cons_of_mem _ hk)

variable (c : TransactionCoordinator)

theorem handleTxPrepare_spec (tx : TxRecord) (txId : String) :
    ∃ locks counter tokens, c.handleTxPrepare (some tx) txId =
        ({ c.withTx tx.txId tx with keyLocks := locks, tokenCounter := counter },
          .vote tx.txId true tokens none) ∧
      ∀ k, locks.get? k = if k ∈ tx.writeSet.keys then some tx.txId else c.keyLocks.get? k := by
  suffices h : ∀ (keys : List String) (granted : TransactionCoordinator × Dict String Int),
      ∃ locks counter tokens, keys.foldl (promiseKey tx.txId) granted =
          ({ granted.1 with keyLocks := locks, tokenCounter := counter }, tokens) ∧
        ∀ k, locks.get? k = if k ∈ keys then some tx.txId else granted.1.keyLocks.get? k by
    obtain ⟨locks, counter, tokens, heq, hlocks⟩ :=
      h tx.writeSet.keys (c.withTx tx.txId tx, .empty)
    refine ⟨locks, counter, tokens, ?_, hlocks⟩
    rw [handleTxPrepare, heq]
  intro keys
  induction keys with
  | nil => exact fun granted => ⟨_, _, _, rfl, by simp⟩
  | cons key keys ih =>
    intro granted
    obtain ⟨locks, counter, tokens, heq, hlocks⟩ := ih (promiseKey tx.txId granted key)
    refine ⟨locks, counter, tokens, heq, fun k => ?_⟩
    rw [hlocks, promiseKey, Dict.get?_insert]
    by_cases hmem : k ∈ keys
    · simp [hmem]
    · simp [hmem]

theorem commitOperations_cons (op : TxOperation) (operations : List TxOperation) (sm : ReplicatedStateMachine) :
    commitOperations (op :: operations) sm = (sm, .error (.nameError "name 'TxOperationType' is not defined")) := by
  rfl

/-- **What a datagram does.** A transaction gets its keys; a commit of an unknown transaction is
confirmed, that of one with operations raises, and that of one without ends it, as an abort does. -/
inductive HandleMove (c : TransactionCoordinator) :
    TxMessage → TransactionCoordinator × Option TxReply → Prop
  | invalid (txId : String) :
      HandleMove c (.prepare none txId)
        (c, some (.vote txId false .empty (some "Invalid tx payload")))
  | promises (tx : TxRecord) (txId : String) (locks : Dict String String) (counter : Int)
      (tokens : Dict String Int)
      (locked : ∀ k, locks.get? k =
        if k ∈ tx.writeSet.keys then some tx.txId else c.keyLocks.get? k) :
      HandleMove c (.prepare (some tx) txId)
        ({ c.withTx tx.txId tx with keyLocks := locks, tokenCounter := counter },
          some (.vote tx.txId true tokens none))
  | confirms (txId : String) (absent : c.activeTxs.get? txId = none) :
      HandleMove c (.commit txId) (c, some (.committed txId))
  | raises (txId : String) (tx : TxRecord) (known : c.activeTxs.get? txId = some tx)
      (busy : tx.operations ≠ []) :
      HandleMove c (.commit txId) (c, none)
  | commits (txId : String) (tx : TxRecord) (known : c.activeTxs.get? txId = some tx)
      (idle : tx.operations = []) :
      HandleMove c (.commit txId) (c.endTx txId tx .committed, some (.committed txId))
  | passes (txId : String) (absent : c.activeTxs.get? txId = none) :
      HandleMove c (.abort txId) (c, some (.aborted txId))
  | aborts (txId : String) (tx : TxRecord) (known : c.activeTxs.get? txId = some tx) :
      HandleMove c (.abort txId) (c.endTx txId tx .aborted, some (.aborted txId))

theorem handleMove_commit (txId : String) : HandleMove c (.commit txId) (c.handle (.commit txId)) := by
  have hsame : { c with stateMachine := c.stateMachine.map fun _ => c.stateMachine.getD .empty } = c := by
    obtain ⟨nodeId, stateMachine⟩ := c
    cases stateMachine <;> rfl
  rw [handle, handleTxCommit]
  cases hknown : c.activeTxs.get? txId with
  | none => exact .confirms txId hknown
  | some tx =>
    dsimp only
    cases hops : tx.operations with
    | nil =>
      rw [commitOperations]
      rw [hsame]
      exact .commits txId tx hknown hops
    | cons op operations =>
      rw [commitOperations_cons]
      rw [hsame]
      exact .raises txId tx hknown (by simp [hops])

theorem handleMove (msg : TxMessage) : HandleMove c msg (c.handle msg) := by
  cases msg with
  | prepare tx txId =>
    cases tx with
    | none => exact .invalid txId
    | some tx =>
      obtain ⟨locks, counter, tokens, heq, hlocks⟩ := c.handleTxPrepare_spec tx txId
      rw [handle, heq]
      exact .promises tx txId locks counter tokens hlocks
  | commit txId => exact c.handleMove_commit txId
  | abort txId =>
    rw [handle, handleTxAbort]
    cases hknown : c.activeTxs.get? txId with
    | none => exact .passes txId hknown
    | some tx => exact .aborts txId tx hknown

end TransactionCoordinator

/-! ### A node as participant -/

/-- The node's coordinator, and what its answers amount to: the keys it has promised with the
transaction each is promised to, the transactions it has been told to commit, and the operations these
oblige it to apply. -/
structure Participant where
  coordinator : TransactionCoordinator
  promises : List (String × String)
  committed : List String
  owed : List TxOperation

namespace Participant

variable (p : Participant)

/-- A vote promises the keys of the transaction's write set, until its commit or abort is answered. -/
def promisesAfter : TxMessage → Option TxReply → List (String × String)
  | .prepare (some tx) _, some (.vote _ true _ _) =>
    p.promises ++ tx.writeSet.keys.map fun key => (key, tx.txId)
  | .commit txId, some _ | .abort txId, some _ => p.promises.filter fun promise => promise.2 ≠ txId
  | _, _ => p.promises

/-- The transaction that a datagram is the first one to commit, unless it was aborted. -/
def commits? : TxMessage → Option (String × TxRecord)
  | .commit txId =>
    match p.coordinator.activeTxs.get? txId with
    | some tx => if txId ∉ p.committed ∧ tx.status ≠ .aborted then some (txId, tx) else none
    | none => none
  | _ => none

def step (msg : TxMessage) : Participant :=
  let (coordinator, reply) := p.coordinator.handle msg
  { coordinator,
    promises := p.promisesAfter msg reply,
    committed := p.committed ++ (p.commits? msg).toList.map Prod.fst,
    owed := p.owed ++ (p.commits? msg).toList.flatMap fun commit => commit.2.operations }

/-- A node that has promised nothing yet. What its records say to be committed is. -/
def start (coordinator : TransactionCoordinator) : Participant :=
  { coordinator,
    promises := [],
    committed := (coordinator.activeTxs.filterValues (·.status = .committed)).keys,
    owed := [] }

variable {p} {txId : String} {msg : TxMessage}

/-- Every key that is promised is locked by the transaction it is promised to. -/
def Held (p : Participant) : Prop :=
  ∀ promise ∈ p.promises, p.coordinator.keyLocks.get? promise.1 = some promise.2

/-- A yes is not answered while one of the keys is promised to another transaction. -/
def VotesApart (p : Participant) (msg : TxMessage) : Prop :=
  ∀ tx txId tokens message, msg = .prepare (some tx) txId →
    (p.coordinator.handle msg).2 = some (.vote tx.txId true tokens message) →
    ∀ key ∈ tx.writeSet.keys, ∀ holder, (key, holder) ∈ p.promises → holder = tx.txId

/-- Nobody but the transaction has locked one of the keys. -/
def Unclaimed (c : TransactionCoordinator) (txId : String) (keys : List String) : Prop :=
  ∀ key ∈ keys, c.keyLocks.get? key = none ∨ c.keyLocks.get? key = some txId
deriving Decidable

def writtenKeys (c : TransactionCoordinator) (txId : String) : List String :=
  match c.activeTxs.get? txId with
  | some tx => tx.writeSet.keys
  | none => []

/-- What the coordinator's own `prepare_transaction` checks before it grants locks, and
`rollback_transaction` before it releases them: no key in question is locked by another transaction. -/
def Exclusive (p : Participant) : TxMessage → Prop
  | .prepare (some tx) _ => Unclaimed p.coordinator tx.txId tx.writeSet.keys
  | .prepare none _ => True
  | .commit txId | .abort txId => Unclaimed p.coordinator txId (writtenKeys p.coordinator txId)

instance (p : Participant) : ∀ msg, Decidable (p.Exclusive msg)
  | .prepare (some _) _ | .commit _ | .abort _ => inferInstanceAs (Decidable (Unclaimed _ _ _))
  | .prepare none _ => .isTrue trivial

theorem Held.endTx (hp : p.Held) {tx : TxRecord} {status : TxStatus}
    (hknown : p.coordinator.activeTxs.get? txId = some tx)
    (hmine : Unclaimed p.coordinator txId (writtenKeys p.coordinator txId)) (promise : String × String)
    (hpromise : promise ∈ p.promises.filter fun promise => promise.2 ≠ txId) :
    (p.coordinator.endTx txId tx status).keyLocks.get? promise.1 = some promise.2 := by
  obtain ⟨hmem, hother⟩ := List.mem_filter.mp hpromise
  have hheld := hp promise hmem
  have hkey : promise.1 ∉ tx.writeSet.keys := by
    intro hkey
    have hwritten : writtenKeys p.coordinator txId = tx.writeSet.keys := by
      simp [writtenKeys, hknown]
    rcases hmine promise.1 (hwritten ▸ hkey) with hnone | hsome
    · cases hheld.symm.trans hnone
    · exact absurd (Option.some.inj (hheld.symm.trans hsome)) (by simpa using hother)
  rwa [TransactionCoordinator.endTx, TransactionCoordinator.get?_popLocks, if_neg hkey]

theorem Held.step (hp : p.Held) (hmsg : p.Exclusive msg) : (p.step msg).Held := by
  have hmove := p.coordinator.handleMove msg
  unfold Participant.step
  generalize p.coordinator.handle msg = out at hmove
  cases hmove with
  | invalid txId => exact hp
  | promises tx txId locks counter tokens locked =>
    intro promise hpromise
    rw [locked]
    rcases List.mem_append.mp hpromise with hold | hnew
    · by_cases hkey : promise.1 ∈ tx.writeSet.keys
      · -- a key that was promised before is promised to the same transaction again
        rw [if_pos hkey]
        rcases hmsg promise.1 hkey with hnone | hsome
        · exact nomatch (hp promise hold).symm.trans hnone
        · exact hsome.symm.trans (hp promise hold)
      · rw [if_neg hkey]
        exact hp promise hold
    · obtain ⟨key, hkey, rfl⟩ := List.mem_map.mp hnew
      rw [if_pos hkey]
  | confirms | passes => exact fun promise hpromise => hp promise (List.mem_of_mem_filter hpromise)
  | raises txId tx known busy => exact hp
  | commits _ _ known | aborts _ _ known => exact hp.endTx known hmsg

theorem Held.votesApart (hp : p.Held) (hmsg : p.Exclusive msg) : p.VotesApart msg := by
  rintro tx txId tokens message rfl _ key hkey holder hpromise
  have hheld := hp _ hpromise
  rcases hmsg key hkey with hnone | hsome
  · exact nomatch hheld.symm.trans hnone
  · exact Option.some.inj (hheld.symm.trans hsome)

/-- **No key is promised twice** in a run of datagrams that come only while nobody else has locked the
keys they lock or release. -/
theorem promises_exclusive (c : TransactionCoordinator) (msgs : List TxMessage)
    (h : Along step Exclusive (start c) msgs) :
    Along step VotesApart (start c) msgs ∧ (run step (start c) msgs).Held := by
  have hstart : (start c).Held := by
    intro promise hpromise
    cases hpromise
  exact ⟨h.of_invariant (I := Held) (fun p msg hp hmsg => ⟨hp.votesApart hmsg, hp.step hmsg⟩) hstart,
    h.invariant (I := Held) (fun p msg hp hmsg => hp.step hmsg) hstart⟩

def setter (txId key : String) : TxRecord :=
  { txId, coordinatorId := "a", status := .active, isolationLevel := .serializable,
    operations := [{ opType := .set, key, value := .int 1 }], readSet := .empty,
    writeSet := Dict.empty.insert key (.int 1), fencingTokens := .empty, timeoutSeconds := 10,
    createdAt := 0, completedAt := none, errorMessage := none }

theorem promises_exclusive_holds :
    let c := TransactionCoordinator.new "b" (some .empty)
    let msgs : List TxMessage :=
      [.prepare (some (setter "tx_1" "x")) "tx_1", .prepare (some (setter "tx_2" "y")) "tx_2",
        .abort "tx_1", .prepare (some (setter "tx_3" "x")) "tx_3"]
    (Along step VotesApart (start c) msgs ∧ (run step (start c) msgs).Held) ∧
      (run step (start c) msgs).promises = [("y", "tx_2"), ("x", "tx_3")] :=
  ⟨promises_exclusive _ _ (by decide +kernel), by decide +kernel⟩

/-- Two transactions that write one key are prepared one after the other: both get a yes, and the lock
goes to the second one. -/
theorem key_promised_twice :
    let c := TransactionCoordinator.new "b" (some .empty)
    let msgs : List TxMessage :=
      [.prepare (some (setter "tx_1" "x")) "tx_1", .prepare (some (setter "tx_2" "x")) "tx_2"]
    ¬ Along step VotesApart (start c) msgs ∧ ¬ (run step (start c) msgs).Held := by
  refine ⟨fun h => ?_, fun h => ?_⟩
  · have hholder := h.2.1 (setter "tx_2" "x") "tx_2" (Dict.empty.insert "x" 2) none rfl
      (by decide +kernel) "x" (by decide +kernel) "tx_1" (by decide +kernel)
    exact absurd hholder (by decide +kernel)
  · exact absurd (h ("x", "tx_1") (by decide +kernel)) (by decide +kernel)

/-! ### Commits of the participant -/

/-- The operations that a datagram obliges the node to apply. -/
def owes (p : Participant) (msg : TxMessage) : List TxOperation :=
  (p.commits? msg).toList.flatMap fun commit => commit.2.operations

/-- The store with operations applied as `commit_transaction` does it. -/
def settle (c : TransactionCoordinator) (operations : List TxOperation) :
    Option ReplicatedStateMachine :=
  c.stateMachine.map fun sm => (applyOperations .values operations (sm, c.keyVersions)).1.1

/-- A commit of the transaction is a repeated one, or the transaction was aborted. -/
def Spent (p : Participant) (txId : String) (tx : TxRecord) : Prop :=
  txId ∈ p.committed ∨ tx.status = .aborted
deriving Decidable

/-- **Exactly once**: a datagram has the effect on the store that it should have; a repeated commit, or
that of an aborted or unknown transaction, changes nothing; and only what was committed is answered as
such. -/
structure CommitsOnce (p : Participant) (msg : TxMessage) : Prop where
  store : (p.step msg).coordinator.stateMachine = settle p.coordinator (p.owes msg)
  spent : ∀ txId, msg = .commit txId →
    (∀ tx, p.coordinator.activeTxs.get? txId = some tx → p.Spent txId tx) →
    (p.step msg).coordinator = p.coordinator
  answer : ∀ txId, (p.coordinator.handle msg).2 = some (.committed txId) →
    txId ∈ (p.step msg).committed

/-- The first commit of a transaction has nothing to apply. Any other one has something to apply, and
fails over it, or finds the transaction committed and its keys free. -/
def Harmless (p : Participant) (txId : String) (tx : TxRecord) : Prop :=
  if p.Spent txId tx then
    tx.operations.isEmpty = false ∨
      (tx.status = .committed ∧ ∀ key ∈ tx.writeSet.keys, p.coordinator.keyLocks.get? key = none)
  else tx.operations.isEmpty = true
deriving Decidable

/-- A commit comes only for a known transaction to which it is harmless. -/
def Vacuous (p : Participant) : TxMessage → Prop
  | .commit txId => ∃ tx ∈ p.coordinator.activeTxs.get? txId, p.Harmless txId tx
  | _ => True

instance (p : Participant) : ∀ msg, Decidable (p.Vacuous msg)
  | .prepare _ _ | .abort _ => .isTrue trivial
  | .commit _ => inferInstanceAs (Decidable (∃ tx ∈ _, Harmless _ _ tx))

theorem commits?_of_known {tx : TxRecord} (hknown : p.coordinator.activeTxs.get? txId = some tx) :
    p.commits? (.commit txId) = if p.Spent txId tx then none else some (txId, tx) := by
  simp only [commits?, hknown, Spent]
  by_cases hdone : txId ∈ p.committed
  · simp [hdone]
  · by_cases haborted : tx.status = .aborted
    · simp [haborted]
    · simp [hdone, haborted]

theorem Vacuous.owes (h : p.Vacuous msg) : p.owes msg = [] := by
  cases msg with
  | prepare tx txId | abort txId => rfl
  | commit txId =>
    obtain ⟨tx, hknown, hharmless⟩ := h
    rw [Participant.owes, commits?_of_known hknown]
    unfold Harmless at hharmless
    split_ifs at hharmless ⊢ with hspent
    · rfl
    · simp [List.isEmpty_iff.mp hharmless]

theorem step_stateMachine (p : Participant) (msg : TxMessage) :
    (p.step msg).coordinator.stateMachine = p.coordinator.stateMachine := by
  have hmove := p.coordinator.handleMove msg
  unfold step
  generalize p.coordinator.handle msg = out at hmove
  cases hmove <;> rfl

theorem endTx_eq_self {c : TransactionCoordinator} {tx : TxRecord} (hknown : c.activeTxs.get? txId = some tx)
    (hfree : ∀ key ∈ tx.writeSet.keys, c.keyLocks.get? key = none) : c.endTx txId tx tx.status = c := by
  rw [TransactionCoordinator.endTx, TransactionCoordinator.popLocks_eq_self hfree,
    Dict.insert_eq_self hknown]

theorem Vacuous.spent (h : p.Vacuous (.commit txId))
    (hspent : ∀ tx, p.coordinator.activeTxs.get? txId = some tx → p.Spent txId tx) :
    (p.step (.commit txId)).coordinator = p.coordinator := by
  have hmove := p.coordinator.handleMove (.commit txId)
  unfold Participant.step
  generalize p.coordinator.handle (.commit txId) = out at hmove
  cases hmove with
  | confirms _ absent | raises _ tx known busy => rfl
  | commits _ tx known idle =>
    obtain ⟨tx', hknown, hharmless⟩ := h
    obtain rfl := Option.some.inj (known.symm.trans hknown)
    rw [Harmless, if_pos (hspent tx known), idle] at hharmless
    obtain ⟨hstatus, hfree⟩ := hharmless.resolve_left (by simp)
    have hself := endTx_eq_self known hfree
    rwa [hstatus] at hself

theorem Vacuous.answer (h : p.Vacuous msg) (hreply : (p.coordinator.handle msg).2 = some (.committed txId)) :
    txId ∈ (p.step msg).committed := by
  change txId ∈ p.committed ++ (p.commits? msg).toList.map Prod.fst
  have hmove := p.coordinator.handleMove msg
  generalize p.coordinator.handle msg = out at hmove hreply
  cases hmove <;> cases hreply
  case confirms absent =>
    obtain ⟨tx, hknown, -⟩ := h
    exact nomatch absent.symm.trans hknown
  case commits tx idle known =>
    obtain ⟨tx', hknown, hharmless⟩ := h
    obtain rfl := Option.some.inj (known.symm.trans hknown)
    rw [commits?_of_known known]
    by_cases hspent : p.Spent txId tx
    · rw [Harmless, if_pos hspent, idle] at hharmless
      obtain ⟨hstatus, -⟩ := hharmless.resolve_left (by simp)
      exact List.mem_append_left _ (hspent.resolve_right (by simp [hstatus]))
    · simp [hspent]

/-- **A participant commits exactly once** in a run whose commits are harmless: at every datagram, and
over the whole run. -/
theorem commits_exactly_once (c : TransactionCoordinator) (msgs : List TxMessage)
    (h : Along step Vacuous (start c) msgs) :
    Along step CommitsOnce (start c) msgs ∧
      (run step (start c) msgs).coordinator.stateMachine =
        settle c (run step (start c) msgs).owed := by
  constructor
  · refine h.mono fun p msg hmsg => ⟨?_, ?_, fun txId => hmsg.answer⟩
    · rw [step_stateMachine, hmsg.owes]
      cases hsm : p.coordinator.stateMachine <;> simp [settle, hsm, applyOperations]
    · rintro txId rfl hspent
      exact hmsg.spent hspent
  · have hinv : (run step (start c) msgs).owed = [] ∧
        (run step (start c) msgs).coordinator.stateMachine = c.stateMachine := by
      refine h.invariant (I := fun p => p.owed = [] ∧ p.coordinator.stateMachine = c.stateMachine)
        (fun p msg hp hmsg => ⟨?_, ?_⟩) ⟨rfl, rfl⟩
      · change p.owed ++ p.owes msg = []
        rw [hp.1, hmsg.owes, List.append_nil]
      · rw [step_stateMachine, hp.2]
    rw [hinv.1, hinv.2]
    cases hsm : c.stateMachine <;> simp [settle, hsm, applyOperations]

def reader (txId : String) : TxRecord :=
  { setter txId "x" with operations := [], writeSet := .empty }

theorem commits_exactly_once_reader :
    let c := TransactionCoordinator.new "b" (some .empty)
    let msgs : List TxMessage :=
      [.prepare (some (setter "tx_1" "x")) "tx_1", .prepare (some (reader "tx_2")) "tx_2",
        .commit "tx_2", .abort "tx_1", .commit "tx_1", .commit "tx_2"]
    (Along step CommitsOnce (start c) msgs ∧
      (run step (start c) msgs).coordinator.stateMachine =
        settle c (run step (start c) msgs).owed) ∧
      (run step (start c) msgs).committed = ["tx_2"] :=
  ⟨commits_exactly_once _ _ (by decide +kernel), by decide +kernel⟩

/-- The commit of a transaction that sets a key raises, and the key is not set; a commit that was never
prepared is confirmed. -/
theorem participant_commit_lost :
    let c := TransactionCoordinator.new "b" (some .empty)
    ¬ Along step CommitsOnce (start c)
        [.prepare (some (setter "tx_1" "x")) "tx_1", .commit "tx_1"] ∧
      ¬ (start c).CommitsOnce (.commit "tx_9") := by
  refine ⟨fun h => ?_, fun h => ?_⟩
  · have hstore := congrArg (fun sm : Option ReplicatedStateMachine =>
      sm.any fun sm => (sm.get "x").isSome) h.2.1.store
    exact absurd hstore (by decide +kernel)
  · exact absurd (h.answer "tx_9" (by decide +kernel)) (by decide +kernel)

end Participant

end MeshWeaver
