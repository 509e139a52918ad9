import MeshWeaver.Lib.Run
import MeshWeaver.Transactions.Coordinator

/-!
# Clients of one coordinator

A client waits for each of its calls before it makes the next one, but everything else may happen between any two
sections of a call: a `get` checks the buffered writes, fetches the value and registers it; a `commit` looks the
transaction up, prepares it and applies its operations, or rolls it back; a `rollback` does so at once. After its last
section a call counts as returned, also if it raises.
-/

namespace MeshWeaver

open Lib
open TransactionCoordinator

/-- The two calls that end a transaction. -/
inductive ClosingCall where
  | commit | rollback
deriving DecidableEq

/-- Where a client is: it may call (`active`), a `get` is under way, the next section of a `commit` or
`rollback` is due, or that call has returned. -/
inductive Phase where
  | active
  | reading (key : String)
  | fetched (key : String) (value : Value)
  | lookup
  | prepare
  | apply
  | abort (reason : Option String) (call : ClosingCall)
  | returned (call : ClosingCall) (answer : Except PyError Bool)
deriving DecidableEq

/-- A client's context and phase, the calls it has made so far with their answers, and what it was given
from the store. -/
structure Session where
  context : TransactionContext
  phase : Phase
  calls : List (TxCall × Except PyError Value)
  reads : List (String × Value)

/-- What a client does, or the section of its call that runs next. -/
inductive TxAction where
  | call (call : TxCall)
  | fetch
  | answer
  | commit
  | rollback (reason : Option String)
  | proceed (now : Rat)

namespace Session

variable (objects : PyObjects) (x : Session)

def txId : String := x.context.txId

/-- A call that does not wait: its exceptions are the client's business. -/
def perform (c : TransactionCoordinator) (call : TxCall) : Session :=
  let (context, answer) := x.context.call objects c.txReadKey call
  { x with context, calls := x.calls ++ [(call, answer)] }

/-- The key that a call has to fetch: one that is not buffered. -/
def fetches? : TxCall → Option String
  | .get key => if x.context.closed ∨ (x.context.writeSet.get? key).isSome then none else some key
  | _ => none

def call (c : TransactionCoordinator) (call : TxCall) : Session :=
  match x.fetches? call with
  | some key => { x with phase := .reading key }
  | none => x.perform objects c call

/-- `commit()` and `rollback()` up to their first section. -/
def close (next : Phase) : Session :=
  if x.context.closed then x else { x with context := { x.context with closed := true }, phase := next }

/-- The next section of the call under way. -/
def proceed (c : TransactionCoordinator) (now : Rat) : TransactionCoordinator × Session :=
  match x.phase with
  | .lookup =>
    match c.activeTxs.get? x.txId with
    | none => (c, { x with phase := .returned .commit (.ok false) })
    | some tx => (c, { x with phase := if tx.status = .prepared then .apply else .prepare })
  | .prepare =>
    let (c', result) := c.prepareTransaction now x.txId (some x.context)
    (c', { x with phase := if result.voteYes then .apply else .abort result.errorMessage .commit })
  | .apply =>
    match c.activeTxs.get? x.txId with
    | none => (c, x)
    | some tx =>
      let (c', outcome) := c.finishCommit objects now x.txId tx
      (c', { x with phase := .returned .commit (outcome.map fun _ => true) })
  | .abort reason call =>
    let (c', answer) := c.rollbackTransaction now x.txId reason
    (c', { x with phase := .returned call (.ok (call = .rollback && answer)) })
  | _ => (c, x)

def advance (c : TransactionCoordinator) : TxAction → TransactionCoordinator × Session
  | .call call =>
    match x.phase with
    | .active => (c, x.call objects c call)
    | _ => (c, x)
  | .fetch =>
    match x.phase with
    | .reading key => (c, { x with phase := .fetched key (c.txReadKey key) })
    | _ => (c, x)
  | .answer =>
    match x.phase with
    | .fetched key value =>
      (c, { context := x.context.register key value, phase := .active,
            calls := x.calls ++ [(.get key, .ok value)], reads := x.reads ++ [(key, value)] })
    | _ => (c, x)
  | .commit =>
    match x.phase with
    | .active => (c, x.close .lookup)
    | _ => (c, x)
  | .rollback reason =>
    match x.phase with
    | .active => (c, x.close (.abort reason .rollback))
    -- the context has been closed by the commit that raised
    | .returned .commit (.error _) => (c, { x with phase := .returned .rollback (.ok false) })
    | _ => (c, x)
  | .proceed now => x.proceed objects c now

def isCommitted : Bool := x.phase = .returned .commit (.ok true)

end Session

/-- A coordinator and the sessions of its transactions. -/
structure TxSystem where
  coordinator : TransactionCoordinator
  sessions : Dict String Session

inductive TxEvent where
  | begin (uuid : String) (isolationLevel : TxIsolationLevel) (timeoutSeconds now : Rat)
  | act (txId : String) (action : TxAction)

namespace TxSystem

variable (objects : PyObjects)

def init (nodeId : String) (stateMachine : Option ReplicatedStateMachine) : TxSystem :=
  ⟨.new nodeId stateMachine, .empty⟩

/-- `uuid4()` does not return an id twice. -/
def step (s : TxSystem) : TxEvent → TxSystem
  | .begin uuid isolationLevel timeoutSeconds now =>
    match s.coordinator.activeTxs.get? ("tx_" ++ uuid) with
    | some _ => s
    | none =>
      let (c, context) := s.coordinator.beginTransaction uuid isolationLevel timeoutSeconds now
      ⟨c, s.sessions.insert context.txId { context, phase := .active, calls := [], reads := [] }⟩
  | .act txId action =>
    match s.sessions.get? txId with
    | none => s
    | some x =>
      let (c, x') := x.advance objects s.coordinator action
      ⟨c, s.sessions.insert txId x'⟩

def after (nodeId : String) (stateMachine : Option ReplicatedStateMachine) (events : List TxEvent) :
    TxSystem :=
  run (step objects) (init nodeId stateMachine) events

def applies (s : TxSystem) : TxEvent → Option String
  | .act txId (.proceed _) =>
    match (s.sessions.get? txId).map Session.phase with
    | some .apply => some txId
    | _ => none
  | _ => none

/-- The commit of the transaction has returned `True`. -/
def committed (s : TxSystem) (id : String) : Bool := (s.sessions.get? id).any Session.isCommitted

/-- The transactions whose operations are applied in a run, in this order. -/
def appliedAlong (s : TxSystem) : List TxEvent → List String
  | [] => []
  | ev :: events => (s.applies ev).toList ++ (s.step objects ev).appliedAlong events

end TxSystem

/-! ### What a section can do -/

namespace Session

/-- **What one action does** to a session and the coordinator, for a transaction with record `tx`. -/
inductive Move (objects : PyObjects) (c : TransactionCoordinator) (tx : TxRecord) (x : Session) :
    TransactionCoordinator × Session → Prop
  | idle : Move objects c tx x (c, x)
  | calls (ctx : TransactionContext) (call : TxCall) (answer : Except PyError Value)
      (phase : x.phase = .active)
      (answers : ∀ readKey, x.context.call objects readKey call = (ctx, answer)) :
      Move objects c tx x (c, { x with context := ctx, calls := x.calls ++ [(call, answer)] })
  | reads (key : String) (phase : x.phase = .active) (opened : x.context.closed = false)
      (unbuffered : x.context.writeSet.get? key = none) :
      Move objects c tx x (c, { x with phase := .reading key })
  | fetches (key : String) (phase : x.phase = .reading key) :
      Move objects c tx x (c, { x with phase := .fetched key (c.txReadKey key) })
  | answers (key : String) (value : Value) (phase : x.phase = .fetched key value) :
      Move objects c tx x
        (c, { context := x.context.register key value, phase := .active,
              calls := x.calls ++ [(.get key, .ok value)], reads := x.reads ++ [(key, value)] })
  | closes (next : Phase) (phase : x.phase = .active)
      (due : next = .lookup ∨ ∃ reason, next = .abort reason .rollback) :
      Move objects c tx x (c, { x with context := { x.context with closed := true }, phase := next })
  | finds (phase : x.phase = .lookup) :
      Move objects c tx x (c, { x with phase := if tx.status = .prepared then .apply else .prepare })
  | refused (status : TxStatus) (reason : Option String) (phase : x.phase = .prepare)
      (unprepared : status = tx.status ∨ status = .timedOut) :
      Move objects c tx x
        (c.withTx x.txId { tx.withContext (some x.context) with status },
          { x with phase := .abort reason .commit })
  | granted (locks : Dict String String) (tokens granted : Dict String Int) (counter : Int)
      (phase : x.phase = .prepare)
      (free : ∀ key ∈ x.context.writeSet.keys, ∀ holder, c.keyLocks.get? key = some holder →
        holder = "" ∨ holder = x.txId)
      (current : ∀ op ∈ x.context.operations, ∀ v, op.expectedVersion = some v →
        c.keyVersions.current op.key = v)
      (locked : ∀ k, locks.get? k =
        if k ∈ x.context.writeSet.keys then some x.txId else c.keyLocks.get? k) :
      Move objects c tx x
        (({ c with keyLocks := locks, fencingTokens := tokens,
                   tokenCounter := counter } : TransactionCoordinator).withTx x.txId
          { tx.withContext (some x.context) with status := .prepared, fencingTokens := granted },
          { x with phase := .apply })
  | sticks (e : PyError) (phase : x.phase = .apply) (raised : (c.applySection objects tx).2 = .error e) :
      Move objects c tx x ((c.applySection objects tx).1, { x with phase := .returned .commit (.error e) })
  | applies (now : Rat) (answer : Except PyError Bool) (phase : x.phase = .apply)
      (whole : (c.applySection objects tx).2 = .ok ())
      (encoded : answer = .ok true ∨ tx.serialisable objects = false ∧ ∃ e, answer = .error e) :
      Move objects c tx x
        ((c.applySection objects tx).1.settle now x.txId tx, { x with phase := .returned .commit answer })
  | aborts (now : Rat) (reason : Option String) (call : ClosingCall) (answer : Bool)
      (phase : x.phase = .abort reason call) (refusal : answer = decide (call = .rollback)) :
      Move objects c tx x
        ({ c with
            keyLocks := releaseLocks x.txId tx.writeSet.keys c.keyLocks,
            activeTxs := c.activeTxs.insert x.txId
              { tx with status := .aborted, errorMessage := reason, completedAt := some now },
            totalAborted := c.totalAborted + 1 },
          { x with phase := .returned call (.ok answer) })
  | givesUp (e : PyError) (phase : x.phase = .returned .commit (.error e)) :
      Move objects c tx x (c, { x with phase := .returned .rollback (.ok false) })

variable {objects : PyObjects} {c : TransactionCoordinator} {tx : TxRecord} {x : Session}

theorem move_call (call : TxCall) (hphase : x.phase = .active) :
    Move objects c tx x (c, x.call objects c call) := by
  have hperform : (∀ readKey, x.context.call objects readKey call = x.context.call objects c.txReadKey call) →
      Move objects c tx x (c, x.perform objects c call) := fun hsame => .calls _ call _ hphase hsame
  rw [Session.call]
  cases call with
  | get key =>
    rw [fetches?]
    split_ifs with hbuffered
    · refine hperform fun readKey => ?_
      simp only [TransactionContext.call, TransactionContext.get, TransactionContext.whileOpen]
      split_ifs with hclosed
      · rfl
      · obtain ⟨value, hvalue⟩ := Option.isSome_iff_exists.mp (hbuffered.resolve_left hclosed)
        rw [hvalue]
    · rw [not_or, Bool.not_eq_true, Option.not_isSome_iff_eq_none] at hbuffered
      exact .reads key hphase hbuffered.1 hbuffered.2
  | _ => exact hperform fun _ => rfl

theorem move_close {next : Phase} (hphase : x.phase = .active)
    (hdue : next = .lookup ∨ ∃ reason, next = .abort reason .rollback) :
    Move objects c tx x (c, x.close next) := by
  rw [close]
  split_ifs with hclosed
  · exact .idle
  · exact .closes next hphase hdue

theorem move_apply (hphase : x.phase = .apply) (now : Rat) :
    Move objects c tx x ((c.finishCommit objects now x.txId tx).1,
      { x with phase := .returned .commit ((c.finishCommit objects now x.txId tx).2.map fun _ => true) }) := by
  rcases c.finishCommit_cases objects now x.txId tx with ⟨e, hraised, heq⟩ | ⟨hwhole, heq⟩
  · rw [heq]
    exact .sticks e hphase hraised
  · rw [heq]
    refine .applies now _ hphase hwhole ?_
    dsimp only
    split_ifs with hencoded
    · exact Or.inl rfl
    · exact Or.inr ⟨by simpa using hencoded, _, rfl⟩

theorem move_proceed (htx : c.activeTxs.get? x.txId = some tx) (now : Rat) :
    Move objects c tx x (x.proceed objects c now) := by
  unfold proceed
  cases hphase : x.phase with
  | lookup =>
    rw [htx]
    exact .finds hphase
  | prepare =>
    have hmove := prepareMove htx now (some x.context)
    generalize c.prepareTransaction now x.txId (some x.context) = out at hmove
    cases hmove with
    | refuses status message unprepared => exact .refused status _ hphase unprepared
    | grants locks tokens granted counter result vote free current locked =>
      dsimp only
      rw [if_pos vote]
      exact .granted locks tokens granted counter hphase free current locked
  | apply =>
    rw [htx]
    exact move_apply hphase now
  | abort reason call =>
    dsimp only
    rw [rollbackTransaction, htx]
    exact .aborts now reason call _ hphase (Bool.and_true _)
  | active | reading key | fetched key value | returned call answer => exact .idle

theorem move_advance (htx : c.activeTxs.get? x.txId = some tx) (action : TxAction) :
    Move objects c tx x (x.advance objects c action) := by
  cases action with
  | call call =>
    rw [advance]
    cases hphase : x.phase with
    | active => exact move_call call hphase
    | _ => exact .idle
  | fetch =>
    rw [advance]
    cases hphase : x.phase with
    | reading key => exact .fetches key hphase
    | _ => exact .idle
  | answer =>
    rw [advance]
    cases hphase : x.phase with
    | fetched key value => exact .answers key value hphase
    | _ => exact .idle
  | commit =>
    rw [advance]
    cases hphase : x.phase with
    | active => exact move_close hphase (Or.inl rfl)
    | _ => exact .idle
  | rollback reason =>
    rw [advance]
    cases hphase : x.phase with
    | active => exact move_close hphase (Or.inr ⟨reason, rfl⟩)
    | returned call answer =>
      cases call with
      | rollback => exact .idle
      | commit =>
        cases answer with
        | ok => exact .idle
        | error e => exact .givesUp e hphase
    | _ => exact .idle
  | proceed now => exact move_proceed htx now

section phases
variable {out : TransactionCoordinator × Session} (hmove : Move objects c tx x out)
include hmove

theorem Move.of_apply (hphase : x.phase = .apply) :
    out = (c, x) ∨ (∃ e, (c.applySection objects tx).2 = .error e) ∨
      (c.applySection objects tx).2 = .ok () ∧ ∃ now answer,
        (answer = .ok true ∨ tx.serialisable objects = false) ∧
          out = ((c.applySection objects tx).1.settle now x.txId tx,
            { x with phase := .returned .commit answer }) := by
  cases hmove with
  | idle => exact Or.inl rfl
  | sticks e phase raised => exact Or.inr (Or.inl ⟨e, raised⟩)
  | applies now answer phase whole encoded =>
    exact Or.inr (Or.inr ⟨whole, now, answer, encoded.imp_right And.left, rfl⟩)
  | _ => simp_all

/-- A call that has returned does nothing more, except that a commit that has raised may be rolled back, in
vain. -/
theorem Move.of_returned {call : ClosingCall} {answer : Except PyError Bool}
    (hphase : x.phase = .returned call answer) :
    out = (c, x) ∨ answer.isOk = false ∧ out = (c, { x with phase := .returned .rollback (.ok false) }) := by
  cases hmove with
  | idle => exact Or.inl rfl
  | givesUp e phase =>
    cases phase.symm.trans hphase
    exact Or.inr ⟨rfl, rfl⟩
  | _ => simp_all

end phases

end Session

end MeshWeaver
