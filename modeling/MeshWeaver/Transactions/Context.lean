import MeshWeaver.Raft.StateMachine

/-!
# Transaction contexts

`TransactionContext` of `transactions.py`: a client's session buffers its mutations as operations and remembers what
each key will hold (`writeSet`) and what was read (`readSet`). Nothing of it reaches the store before the commit. An
increment counts from what `int()` makes of an object; if that raises something that is not caught, the operation has
already been appended, and its key is not written.
-/

namespace MeshWeaver

open Lib

/-- `except (ValueError, TypeError)` -/
def PyError.isCaught : PyError → Bool
  | .valueError _ => true
  | .typeError _ => true
  | _ => false

/-- What the objects in a transaction do: `int(v)`, and whether `json.dumps(v)` returns. Only of numbers and of
`None` is anything known: a `Value` is here no more than the name of an object. -/
structure PyObjects where
  toInt : Value → Except PyError Int
  serialisable : Value → Bool
  toInt_int : ∀ z, toInt (.int z) = .ok z
  toInt_none : ∃ message, toInt .none = .error (.typeError message)

namespace PyObjects

/-- The objects that a `Value` stands for elsewhere: `int()` raises nothing but `ValueError` and
`TypeError`, and all of them can be encoded. -/
def values : PyObjects := ⟨Value.toInt, fun _ => true, fun _ => rfl, ⟨_, rfl⟩⟩

/-- An object of a class of its own. -/
def someObject : Value :=
  .entry
    { index := 1, term := 1, commandType := .noop, key := none, value := .none, clientId := none,
      timestamp := 0, fencingToken := none, extraData := .none }

/-- `int()` of this object raises, as that of `float("inf")` does, and it can be encoded. -/
def infinity : PyObjects where
  toInt v :=
    if v = someObject then .error (.overflowError "cannot convert float infinity to integer") else v.toInt
  serialisable v := v = someObject || v.isJson
  toInt_int z := if_neg (by simp [someObject])
  toInt_none := ⟨_, if_neg (by simp [someObject])⟩

/-- `int(curr) + delta`, or `delta` where `int` raises `ValueError` or `TypeError`. -/
def incremented (objects : PyObjects) (curr : Value) (delta : Int) : Except PyError Value :=
  match objects.toInt curr with
  | .ok z => .ok (.int (z + delta))
  | .error e => if e.isCaught then .ok (.int delta) else .error e

/-- `int(v)` can be called inside the `try` statement of an increment. -/
def Countable (objects : PyObjects) (v : Value) : Prop :=
  ∀ e, objects.toInt v = .error e → e.isCaught = true

theorem countable_values (v : Value) : values.Countable v := by
  intro e h
  change v.toInt = _ at h
  unfold Value.toInt at h
  split at h
  case h_4 =>
    split at h
    · cases h
    · cases h
      rfl
  all_goals cases h
  rfl

variable {objects : PyObjects}

theorem countable_int (z : Int) : objects.Countable (.int z) := fun _ he => nomatch (objects.toInt_int z).symm.trans he

theorem incremented_of_countable {v : Value} (h : objects.Countable v) (delta : Int) :
    ∃ z, objects.incremented v delta = .ok (.int z) := by
  rw [incremented]
  cases hint : objects.toInt v with
  | ok z => exact ⟨z + delta, rfl⟩
  | error e => exact ⟨delta, if_pos (h e hint)⟩

theorem incremented_of_not_countable {v : Value} (h : ¬ objects.Countable v) (delta : Int) :
    ∃ e, objects.incremented v delta = .error e := by
  rw [Countable, not_forall] at h
  obtain ⟨e, he⟩ := h
  rw [Classical.not_imp] at he
  rw [incremented, he.1]
  exact ⟨e, if_neg he.2⟩

end PyObjects

inductive TxStatus where
  | active | preparing | prepared | committing | committed | aborting | aborted | timedOut
deriving DecidableEq, Repr

inductive TxIsolationLevel where
  | readCommitted | repeatableRead | serializable
deriving DecidableEq, Repr

inductive TxOperationType where
  | set | delete | increment
deriving DecidableEq, Repr

structure TxOperation where
  opType : TxOperationType
  key : String
  value : Value := .none
  delta : Int := 1
  expectedVersion : Option Int := none
deriving DecidableEq

structure TransactionContext where
  txId : String
  isolationLevel : TxIsolationLevel
  timeoutSeconds : Rat
  operations : List TxOperation
  readSet : Dict String Value
  writeSet : Dict String Value
  closed : Bool

/-- The calls that work on a transaction without ending it. -/
inductive TxCall where
  | set (key : String) (value : Value) (expectedVersion : Option Int)
  | increment (key : String) (delta : Int) (expectedVersion : Option Int)
  | delete (key : String) (expectedVersion : Option Int)
  | get (key : String)

namespace TransactionContext

def new (txId : String) (isolationLevel : TxIsolationLevel) (timeoutSeconds : Rat) :
    TransactionContext :=
  { txId, isolationLevel, timeoutSeconds, operations := [], readSet := .empty, writeSet := .empty,
    closed := false }

variable (objects : PyObjects) (readKey : String → Value) (ctx : TransactionContext)

/-- `self.operations.append(op)` -/
def append (op : TxOperation) : TransactionContext := { ctx with operations := ctx.operations ++ [op] }

def write (key : String) (value : Value) : TransactionContext :=
  { ctx with writeSet := ctx.writeSet.insert key value }

def register (key : String) (val : Value) : TransactionContext :=
  { ctx with readSet := ctx.readSet.insert key val }

/-- `self.write_set.get(key, self.read_set.get(key, 0))` -/
def seen (key : String) : Value :=
  (ctx.writeSet.get? key).getD ((ctx.readSet.get? key).getD (.int 0))

/-- A method: the context afterwards, and what is returned or raised. -/
def whileOpen (body : TransactionContext × Except PyError Value) :
    TransactionContext × Except PyError Value :=
  if ctx.closed then (ctx, .error (.runtimeError "Transaction is closed")) else body

def set (key : String) (value : Value) (expectedVersion : Option Int) :
    TransactionContext × Except PyError Value :=
  ctx.whileOpen ((ctx.append { opType := .set, key, value, expectedVersion }).write key value, .ok .none)

def increment (key : String) (delta : Int) (expectedVersion : Option Int) :
    TransactionContext × Except PyError Value :=
  let appended := ctx.append { opType := .increment, key, delta, expectedVersion }
  ctx.whileOpen
    (match objects.incremented (ctx.seen key) delta with
    | .ok value => (appended.write key value, .ok .none)
    | .error e => (appended, .error e))

def delete (key : String) (expectedVersion : Option Int) : TransactionContext × Except PyError Value :=
  ctx.whileOpen ((ctx.append { opType := .delete, key, expectedVersion }).write key .none, .ok .none)

/-- `get(key)`, where `readKey` is `coordinator.tx_read_key`. -/
def get (key : String) : TransactionContext × Except PyError Value :=
  ctx.whileOpen
    (match ctx.writeSet.get? key with
    | some value => (ctx, .ok value)
    | none => (ctx.register key (readKey key), .ok (readKey key)))

def call : TxCall → TransactionContext × Except PyError Value
  | .set key value expectedVersion => ctx.set key value expectedVersion
  | .increment key delta expectedVersion => ctx.increment objects key delta expectedVersion
  | .delete key expectedVersion => ctx.delete key expectedVersion
  | .get key => ctx.get readKey key

/-- Several calls, whatever they return or raise. -/
def calls (ctx : TransactionContext) : List TxCall → TransactionContext × List (Except PyError Value)
  | [] => (ctx, [])
  | c :: cs =>
    let (ctx₁, answer) := ctx.call objects readKey c
    let (ctx₂, answers) := ctx₁.calls cs
    (ctx₂, answer :: answers)

/-- The key of every operation is in the write set. -/
def Written : Prop := ∀ op ∈ ctx.operations, op.key ∈ ctx.writeSet.keys
deriving Decidable

/-! ### What a call can do -/

variable {ctx}

/-- **A call** leaves the context as it is, or registers a value, or appends an operation; then it writes
its key, unless the call raises. -/
inductive CallMove (ctx : TransactionContext) : TransactionContext × Except PyError Value → Prop
  | same (answer : Except PyError Value) : CallMove ctx (ctx, answer)
  | registers (key : String) (value : Value) (answer : Except PyError Value) :
      CallMove ctx (ctx.register key value, answer)
  | writes (op : TxOperation) (value : Value) : CallMove ctx ((ctx.append op).write op.key value, .ok .none)
  | raises (op : TxOperation) (e : PyError) : CallMove ctx (ctx.append op, .error e)

theorem callMove (ctx : TransactionContext) (c : TxCall) : CallMove ctx (ctx.call objects readKey c) := by
  have hopen : ∀ {body}, CallMove ctx body → CallMove ctx (ctx.whileOpen body) := by
    intro body hbody
    unfold whileOpen
    split_ifs
    · exact .same _
    · exact hbody
  cases c with
  | set key value expectedVersion =>
    exact hopen (.writes { opType := .set, key, value, expectedVersion } value)
  | delete key expectedVersion =>
    exact hopen (.writes { opType := .delete, key, expectedVersion } .none)
  | increment key delta expectedVersion =>
    refine hopen ?_
    cases objects.incremented (ctx.seen key) delta with
    | ok value => exact .writes { opType := .increment, key, delta, expectedVersion } value
    | error e => exact .raises _ e
  | get key =>
    refine hopen ?_
    cases ctx.writeSet.get? key with
    | some value => exact .same _
    | none => exact .registers key _ _

/-- **A call that does not raise** leaves the key of every operation in the write set. -/
theorem call_written {c : TxCall} {answer : Value} (hwritten : ctx.Written)
    (h : (ctx.call objects readKey c).2 = .ok answer) : (ctx.call objects readKey c).1.Written := by
  have hmove := callMove objects readKey ctx c
  generalize ctx.call objects readKey c = out at hmove h
  cases hmove with
  | same | registers => exact hwritten
  | raises => cases h
  | writes new value =>
    intro op hop
    refine (Dict.mem_keys_insert ..).mpr ?_
    rcases List.mem_append.mp hop with hold | hnew
    · exact Or.inr (hwritten op hold)
    · exact Or.inl (congrArg TxOperation.key (List.mem_singleton.mp hnew))

theorem calls_concat (cs : List TxCall) (c : TxCall) :
    ctx.calls objects readKey (cs ++ [c]) =
      (((ctx.calls objects readKey cs).1.call objects readKey c).1,
        (ctx.calls objects readKey cs).2 ++ [((ctx.calls objects readKey cs).1.call objects readKey c).2]) := by
  induction cs generalizing ctx with
  | nil => rfl
  | cons d cs ih =>
    rw [List.cons_append, calls]
    dsimp only
    rw [ih]
    rfl

end TransactionContext

end MeshWeaver
