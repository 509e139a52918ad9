import MeshWeaver.Transactions.Atomicity

/-!
# What a transaction reads before it commits

A context answers `get` from what it has buffered, and the commit executes the operations again on the store. For one
key the two agree as soon as the key has been set, deleted, or read before its first increment (`KeyView.agreed`). A
key that is incremented first is counted from 0 by the context and from what the store holds by the commit
(`KeyView.blind`). The objects are arbitrary.
-/

namespace MeshWeaver

open Lib TransactionContext TransactionCoordinator

namespace PyObjects

variable {objects : PyObjects}

/-- What `int(v)` counts for in an increment, if it raises nothing that is not caught. -/
def counted (objects : PyObjects) (v : Value) : Option Int :=
  match objects.toInt v with
  | .ok z => some z
  | .error e => if e.isCaught then some 0 else none

@[simp] theorem counted_int (z : Int) : objects.counted (.int z) = some z := by
  rw [counted, objects.toInt_int]

theorem incremented_eq (objects : PyObjects) (v : Value) (delta : Int) :
    (objects.incremented v delta).toOption = (objects.counted v).map fun z => .int (z + delta) := by
  rw [incremented, counted]
  cases objects.toInt v with
  | ok z => rfl
  | error e =>
    dsimp only
    cases e.isCaught with
    | true => simp [Except.toOption]
    | false => rfl

theorem counted_getD_none (held : Option Value) :
    objects.counted (held.getD .none) = objects.counted (held.getD (.int 0)) := by
  cases held with
  | none =>
    obtain ⟨message, hmessage⟩ := objects.toInt_none
    rw [Option.getD_none, Option.getD_none, counted_int, counted, hmessage]
    rfl
  | some v => rfl

end PyObjects

namespace TxCall

def key : TxCall → String
  | .set key _ _ | .increment key _ _ | .delete key _ | .get key => key

def operation? : TxCall → Option TxOperation
  | .set key value expectedVersion => some { opType := .set, key, value, expectedVersion }
  | .increment key delta expectedVersion => some { opType := .increment, key, delta, expectedVersion }
  | .delete key expectedVersion => some { opType := .delete, key, expectedVersion }
  | .get _ => none

/-- The call gives its key a value that does not depend on the one before. -/
def overwrites : TxCall → Bool
  | .set .. | .delete .. => true
  | _ => false

def increments : TxCall → Bool
  | .increment .. => true
  | _ => false

end TxCall

/-! ### The context -/

namespace TransactionContext

variable (objects : PyObjects) (readKey : String → Value) {ctx : TransactionContext}

section open_context
variable (hopen : ctx.closed = false)
include hopen

theorem call_set (key : String) (value : Value) (expectedVersion : Option Int) :
    (ctx.call objects readKey (.set key value expectedVersion)).1 =
      (ctx.append { opType := .set, key, value, expectedVersion }).write key value := by
  simp [call, set, whileOpen, hopen]

theorem call_delete (key : String) (expectedVersion : Option Int) :
    (ctx.call objects readKey (.delete key expectedVersion)).1 =
      (ctx.append { opType := .delete, key, expectedVersion }).write key .none := by
  simp [call, delete, whileOpen, hopen]

theorem call_get (key : String) :
    (ctx.call objects readKey (.get key)).1 =
      match ctx.writeSet.get? key with
      | some _ => ctx
      | none => ctx.register key (readKey key) := by
  cases hbuffered : ctx.writeSet.get? key <;> simp [call, get, whileOpen, hopen, hbuffered]

theorem get_open (key : String) : (ctx.get readKey key).2 = .ok ((ctx.writeSet.get? key).getD (readKey key)) := by
  cases hbuffered : ctx.writeSet.get? key <;> simp [get, whileOpen, hopen, hbuffered]

theorem call_increment (key : String) (delta : Int) (expectedVersion : Option Int) :
    (ctx.call objects readKey (.increment key delta expectedVersion)).1 =
      let appended := ctx.append { opType := .increment, key, delta, expectedVersion }
      match objects.counted (ctx.seen key) with
      | some z => appended.write key (.int (z + delta))
      | none => appended := by
  have heq := objects.incremented_eq (ctx.seen key) delta
  simp only [call, increment, whileOpen, hopen]
  cases hvalue : objects.incremented (ctx.seen key) delta with
  | ok value =>
    rw [hvalue] at heq
    obtain ⟨z, hz, rfl⟩ := Option.map_eq_some_iff.mp heq.symm
    rw [hz]
    rfl
  | error e =>
    rw [hvalue] at heq
    rw [Option.map_eq_none_iff.mp heq.symm]
    rfl

theorem call_open (c : TxCall) :
    (ctx.call objects readKey c).1.closed = false ∧ (ctx.call objects readKey c).1.txId = ctx.txId ∧
      (ctx.call objects readKey c).1.operations = ctx.operations ++ c.operation?.toList := by
  cases c with
  | set key value expectedVersion =>
    rw [call_set objects readKey hopen]
    exact ⟨hopen, rfl, rfl⟩
  | delete key expectedVersion =>
    rw [call_delete objects readKey hopen]
    exact ⟨hopen, rfl, rfl⟩
  | increment key delta expectedVersion =>
    rw [call_increment objects readKey hopen]
    dsimp only
    cases objects.counted (ctx.seen key) <;> exact ⟨hopen, rfl, rfl⟩
  | get key =>
    rw [call_get objects readKey hopen]
    cases ctx.writeSet.get? key <;> exact ⟨hopen, rfl, (List.append_nil _).symm⟩

theorem call_other {c : TxCall} {key : String} (hkey : c.key ≠ key) :
    (ctx.call objects readKey c).1.writeSet.get? key = ctx.writeSet.get? key ∧
      (ctx.call objects readKey c).1.readSet.get? key = ctx.readSet.get? key := by
  cases c with
  | set k value expectedVersion =>
    rw [call_set objects readKey hopen]
    exact ⟨Dict.get?_insert_of_ne _ _ hkey.symm, rfl⟩
  | delete k expectedVersion =>
    rw [call_delete objects readKey hopen]
    exact ⟨Dict.get?_insert_of_ne _ _ hkey.symm, rfl⟩
  | increment k delta expectedVersion =>
    rw [call_increment objects readKey hopen]
    dsimp only
    cases objects.counted (ctx.seen k) with
    | some z => exact ⟨Dict.get?_insert_of_ne _ _ hkey.symm, rfl⟩
    | none => exact ⟨rfl, rfl⟩
  | get k =>
    rw [call_get objects readKey hopen]
    cases ctx.writeSet.get? k with
    | some v => exact ⟨rfl, rfl⟩
    | none => exact ⟨rfl, Dict.get?_insert_of_ne _ _ hkey.symm⟩

end open_context

theorem calls_open (cs : List TxCall) (hopen : ctx.closed = false) :
    (ctx.calls objects readKey cs).1.closed = false ∧ (ctx.calls objects readKey cs).1.txId = ctx.txId ∧
      (ctx.calls objects readKey cs).1.operations = ctx.operations ++ cs.filterMap TxCall.operation? := by
  induction cs generalizing ctx with
  | nil => exact ⟨hopen, rfl, (List.append_nil _).symm⟩
  | cons c cs ih =>
    obtain ⟨hopen', hid, hops⟩ := call_open objects readKey hopen c
    obtain ⟨hclosed, hid', hops'⟩ := ih hopen'
    refine ⟨hclosed, hid'.trans hid, hops'.trans ?_⟩
    rw [hops, List.append_assoc]
    cases c <;> rfl

end TransactionContext

theorem TxOperation.apply_increment {objects : PyObjects} {sm sm' : ReplicatedStateMachine} {op : TxOperation}
    (htype : op.opType = .increment) (h : op.apply objects sm = .ok sm') :
    ∃ z, objects.counted ((sm.get op.key).getD (.int 0)) = some z ∧
      sm' = { sm with state := sm.state.insert op.key (.int (z + op.delta)) } := by
  have heq := objects.incremented_eq ((sm.get op.key).getD (.int 0)) op.delta
  rw [TxOperation.apply, htype] at h
  dsimp only at h
  cases hvalue : objects.incremented ((sm.get op.key).getD (.int 0)) op.delta with
  | error e =>
    rw [hvalue] at h
    cases h
  | ok value =>
    rw [hvalue] at h heq
    obtain ⟨z, hz, rfl⟩ := Option.map_eq_some_iff.mp heq.symm
    cases h
    exact ⟨z, hz, rfl⟩

/-! ### One key -/

/-- How far the context knows what the commit will make of a key. -/
inductive KeyView where
  | fresh
  | read
  | agreed
  | blind
deriving DecidableEq

/-- The view of a key after one more call about it. -/
def KeyView.advance : KeyView → TxCall → KeyView
  | _, .set .. => .agreed
  | _, .delete .. => .agreed
  | .fresh, .get _ => .read
  | view, .get _ => view
  | .fresh, .increment .. => .blind
  | .read, .increment .. => .agreed
  | view, .increment .. => view

def KeyView.next (key : String) (view : KeyView) (c : TxCall) : KeyView :=
  if c.key = key then view.advance c else view

section
variable (objects : PyObjects) (sm : ReplicatedStateMachine) (key : String)

/-- What the context holds for the key, and the store `cur` after the operations so far. -/
inductive Sees (ctx : TransactionContext) (cur : ReplicatedStateMachine) : KeyView → Prop
  | fresh (buffered : ctx.writeSet.get? key = none) (unread : ctx.readSet.get? key = none)
      (stored : cur.get key = sm.get key) : Sees ctx cur .fresh
  | read (buffered : ctx.writeSet.get? key = none)
      (known : ctx.readSet.get? key = some ((sm.get key).getD .none))
      (stored : cur.get key = sm.get key) : Sees ctx cur .read
  | agreed (buffered : ctx.writeSet.get? key = some ((cur.get key).getD .none))
      (counts : objects.counted ((cur.get key).getD .none) =
        objects.counted ((cur.get key).getD (.int 0))) : Sees ctx cur .agreed
  | blind (a z : Int) (buffered : ctx.writeSet.get? key = some (.int a))
      (start : objects.counted ((sm.get key).getD (.int 0)) = some z)
      (stored : cur.get key = some (.int (a + z))) : Sees ctx cur .blind

variable {objects sm key} {ctx ctx' : TransactionContext} {cur cur' : ReplicatedStateMachine}
  {view : KeyView}

theorem Sees.of_same (h : Sees objects sm key ctx cur view) (hwrite : ctx'.writeSet.get? key = ctx.writeSet.get? key)
    (hread : ctx'.readSet.get? key = ctx.readSet.get? key) (hcur : cur'.get key = cur.get key) :
    Sees objects sm key ctx' cur' view := by
  cases h with
  | fresh buffered unread stored =>
    exact .fresh (hwrite.trans buffered) (hread.trans unread) (hcur.trans stored)
  | read buffered known stored =>
    exact .read (hwrite.trans buffered) (hread.trans known) (hcur.trans stored)
  | agreed buffered counts =>
    rw [← hcur] at buffered counts
    exact .agreed (hwrite.trans buffered) counts
  | blind a z buffered start stored =>
    exact .blind a z (hwrite.trans buffered) start (hcur.trans stored)

theorem Sees.agreed_of_some {v : Value} (hwrite : ctx.writeSet.get? key = some v)
    (hcur : cur.get key = some v) : Sees objects sm key ctx cur .agreed := by
  refine .agreed ?_ ?_ <;> rw [hcur]
  · exact hwrite
  · rfl

section calls
variable (h : Sees objects sm key ctx cur view) (hopen : ctx.closed = false)
include h hopen

theorem Sees.increment (readKey : String → Value) {delta : Int} {expectedVersion : Option Int}
    (hcur : ({ opType := .increment, key, delta, expectedVersion } : TxOperation).apply objects cur =
      .ok cur') :
    Sees objects sm key (ctx.call objects readKey (.increment key delta expectedVersion)).1 cur'
      (view.advance (.increment key delta expectedVersion)) := by
  obtain ⟨z, hz, rfl⟩ := TxOperation.apply_increment rfl hcur
  rw [call_increment objects readKey hopen]
  dsimp only
  cases h with
  | fresh buffered unread stored =>
    -- the context counts from 0, the commit from what is stored
    rw [stored] at hz
    refine .blind delta z ?_ hz ?_
    · simp [TransactionContext.seen, write, buffered, unread]
    · rw [add_comm]
      exact Dict.get?_insert_self ..
  | read buffered known stored =>
    have hseen : objects.counted (ctx.seen key) = some z := by
      rw [TransactionContext.seen, buffered, known, Option.getD_none, Option.getD_some,
        PyObjects.counted_getD_none, ← stored, hz]
    refine .agreed_of_some ?_ (Dict.get?_insert_self ..)
    simp [hseen, write]
  | agreed buffered counts =>
    have hseen : objects.counted (ctx.seen key) = some z := by
      rw [TransactionContext.seen, buffered, Option.getD_some, counts, hz]
    refine .agreed_of_some ?_ (Dict.get?_insert_self ..)
    simp [hseen, write]
  | blind a w buffered start stored =>
    rw [stored, Option.getD_some, PyObjects.counted_int, Option.some.injEq] at hz
    refine .blind (a + delta) w ?_ start ?_
    · simp [TransactionContext.seen, write, buffered]
    · rw [← hz, add_right_comm]
      exact Dict.get?_insert_self ..

/-- **One call**: the view after it is right, if the operation it appends can be applied. -/
theorem Sees.step (c : TxCall) (hcur : match c.operation? with
      | some op => op.apply objects cur = .ok cur'
      | none => cur' = cur) :
    Sees objects sm key (ctx.call objects (fun k => (sm.get k).getD .none) c).1 cur' (view.next key c) := by
  rw [KeyView.next]
  split_ifs with hkey
  · subst hkey
    cases c with
    | increment k delta expectedVersion => exact h.increment hopen _ hcur
    | set k value expectedVersion =>
      rw [call_set objects _ hopen]
      cases hcur
      exact .agreed_of_some (Dict.get?_insert_self ..) (Dict.get?_insert_self ..)
    | delete k expectedVersion =>
      rw [call_delete objects _ hopen]
      cases hcur
      have hgone : ({ cur with state := cur.state.erase k } : ReplicatedStateMachine).get k = none :=
        (Dict.get?_erase ..).trans (if_pos rfl)
      refine .agreed ?_ (PyObjects.counted_getD_none _)
      change (ctx.writeSet.insert k .none).get? k = some ((ReplicatedStateMachine.get _ k).getD .none)
      rw [hgone]
      exact Dict.get?_insert_self ..
    | get k =>
      cases hcur
      rw [call_get objects _ hopen]
      cases h with
      | fresh buffered _ stored | read buffered _ stored =>
        rw [show ctx.writeSet.get? k = none from buffered]
        exact .read buffered (Dict.get?_insert_self ..) stored
      | agreed buffered counts =>
        rw [show ctx.writeSet.get? k = _ from buffered]
        exact .agreed buffered counts
      | blind a z buffered start stored =>
        rw [show ctx.writeSet.get? k = _ from buffered]
        exact .blind a z buffered start stored
  · obtain ⟨hwrite, hread⟩ := call_other objects
      (fun k => (sm.get k).getD .none) hopen hkey
    refine h.of_same hwrite hread ?_
    cases hop : c.operation? with
    | none =>
      rw [hop] at hcur
      rw [hcur]
    | some op =>
      rw [hop] at hcur
      refine TxOperation.apply_other hcur fun hsame => hkey ?_
      cases c <;> cases hop <;> exact hsame

/-- **A sequence of calls** whose operations can all be applied. -/
theorem Sees.after {calls : List TxCall} {versions versions' : Versions}
    (hcommit : applyOperations objects (calls.filterMap TxCall.operation?) (cur, versions) =
      ((cur', versions'), .ok ())) :
    Sees objects sm key (ctx.calls objects (fun k => (sm.get k).getD .none) calls).1 cur'
      (run (KeyView.next key) view calls) := by
  induction calls generalizing ctx cur view versions with
  | nil =>
    cases hcommit
    exact h
  | cons c calls ih =>
    have hopen' := (call_open objects (fun k => (sm.get k).getD .none) hopen c).1
    cases hop : c.operation? with
    | none =>
      rw [List.filterMap_cons_none hop] at hcommit
      exact ih (h.step hopen c (by rw [hop])) hopen' hcommit
    | some op =>
      rw [List.filterMap_cons_some hop, applyOperations] at hcommit
      cases happly : op.apply objects cur with
      | error e =>
        rw [happly] at hcommit
        cases hcommit
      | ok cur₁ =>
        rw [happly] at hcommit
        exact ih (h.step hopen c (by rw [hop]; exact happly)) hopen' hcommit

end calls

theorem Sees.predicts_iff (h : Sees objects sm key ctx cur view) :
    (ctx.writeSet.get? key).getD ((sm.get key).getD .none) = (cur.get key).getD .none ↔
      (view = .blind → objects.counted ((sm.get key).getD (.int 0)) = some 0) := by
  cases h with
  | fresh buffered unread stored | read buffered known stored => simp [buffered, stored]
  | agreed buffered counts => simp [buffered]
  | blind a z buffered start stored =>
    rw [buffered, stored, start, Option.getD_some, Option.getD_some, Value.int.injEq, Option.some.injEq]
    constructor
    · omega
    · intro hzero
      have := hzero rfl
      omega

theorem Sees.mem_keys (h : Sees objects sm key ctx cur view) (hview : view = .agreed ∨ view = .blind) :
    key ∈ ctx.writeSet.keys := by
  by_contra hnot
  have hget := (Dict.get?_eq_none_iff _ _).mpr hnot
  cases h with
  | fresh | read => simp at hview
  | agreed buffered | blind a z buffered => cases buffered.symm.trans hget

end

theorem run_next_buffered (key : String) {calls : List TxCall} {view : KeyView}
    (h : (view = .agreed ∨ view = .blind) ∨ ∃ c ∈ calls, c.key = key ∧ c.operation? ≠ none) :
    run (KeyView.next key) view calls = .agreed ∨ run (KeyView.next key) view calls = .blind := by
  induction calls generalizing view with
  | nil => simpa using h
  | cons c calls ih =>
    refine ih ?_
    rw [KeyView.next]
    rcases h with h | ⟨d, hd, hkey, hop⟩
    · left
      split_ifs
      · rcases h with rfl | rfl <;> cases c <;> simp [KeyView.advance]
      · exact h
    · rcases List.mem_cons.mp hd with rfl | hd
      · left
        rw [if_pos hkey]
        cases d <;> cases view <;> simp_all [KeyView.advance, TxCall.operation?]
      · exact Or.inr ⟨d, hd, hkey, hop⟩

/-- **Operations that can be applied** to the store that was read have their keys in the write set: a call that has
raised would raise again. -/
theorem TransactionContext.calls_written {objects : PyObjects} {sm : ReplicatedStateMachine} {versions : Versions}
    {txId : String} {isolationLevel : TxIsolationLevel} {timeoutSeconds : Rat} {calls : List TxCall}
    {ctx : TransactionContext} {answers : List (Except PyError Value)}
    (hcalls : (TransactionContext.new txId isolationLevel timeoutSeconds).calls objects
      (fun key => (sm.get key).getD .none) calls = (ctx, answers))
    (hok : (applyOperations objects ctx.operations (sm, versions)).2 = .ok ()) : ctx.Written := by
  have hbegun : (TransactionContext.new txId isolationLevel timeoutSeconds).closed = false := rfl
  obtain ⟨-, -, hops⟩ := calls_open objects (fun key => (sm.get key).getD .none) calls hbegun
  rw [hcalls] at hops
  have hops : ctx.operations = calls.filterMap TxCall.operation? := hops
  intro op hop
  rw [hops] at hok hop
  obtain ⟨c, hc, hcop⟩ := List.mem_filterMap.mp hop
  have hkey : c.key = op.key := by cases c <;> cases hcop <;> rfl
  have hsees := (Sees.fresh rfl rfl rfl : Sees objects sm op.key (.new txId isolationLevel timeoutSeconds) sm
    .fresh).after hbegun (Prod.ext rfl hok)
  rw [hcalls] at hsees
  exact hsees.mem_keys (run_next_buffered op.key (Or.inr ⟨c, hc, hkey, by simp [hcop]⟩))

theorem run_next_ne_blind (key : String) (calls : List TxCall) {view : KeyView}
    (hview : view ≠ .fresh ∧ view ≠ .blind) : run (KeyView.next key) view calls ≠ .blind := by
  refine (run_invariant (I := fun view : KeyView => view ≠ .fresh ∧ view ≠ .blind)
    (fun view c hview => ?_) hview calls).2
  rw [KeyView.next]
  split_ifs
  · cases view <;> cases c <;> simp_all [KeyView.advance]
  · exact hview

theorem run_next_blind_iff (key : String) (calls : List TxCall) :
    run (KeyView.next key) .blind calls = .blind ↔ ∀ c ∈ calls, c.key = key → c.overwrites = false := by
  induction calls with
  | nil => simp
  | cons c calls ih =>
    rw [run_cons, List.forall_mem_cons, KeyView.next]
    by_cases hkey : c.key = key
    · rw [if_pos hkey]
      cases c with
      | set | delete =>
        exact iff_of_false (run_next_ne_blind key calls (by simp [KeyView.advance]))
          fun h => absurd (h.1 hkey) (by simp [TxCall.overwrites])
      | get | increment => simpa [KeyView.advance, TxCall.overwrites] using ih
    · simpa [hkey] using ih

/-- **A key is counted blindly** if the first call about it is an increment and it is never overwritten. -/
theorem run_next_fresh_iff (key : String) (calls : List TxCall) :
    run (KeyView.next key) .fresh calls = .blind ↔
      (∃ c ∈ calls.find? fun c => c.key = key, c.increments = true) ∧
        ∀ c ∈ calls, c.key = key → c.overwrites = false := by
  induction calls with
  | nil => simp
  | cons c calls ih =>
    rw [run_cons, KeyView.next]
    by_cases hkey : c.key = key
    · rw [if_pos hkey, List.find?_cons_of_pos (by simpa using hkey)]
      cases c with
      | increment k delta expectedVersion =>
        refine (run_next_blind_iff key calls).trans ?_
        simp [TxCall.increments, TxCall.overwrites]
      | set | delete | get =>
        exact iff_of_false (run_next_ne_blind key calls (by simp [KeyView.advance]))
          fun h => absurd h.1 (by simp [TxCall.increments])
    · rw [if_neg hkey, List.find?_cons_of_neg (by simpa using hkey), ih]
      simp [hkey]

/-! ### The commit -/

section
variable {objects : PyObjects} {s s' : WALCoordinator} {sm : ReplicatedStateMachine} {later : Rat}

theorem WALCoordinator.finishCommit_true {txId : String} {tx : TxRecord} (hsm : s.coordinator.stateMachine = some sm)
    (h : s.finishCommit objects later txId tx = (s', .ok true)) :
    ∃ sm' versions, applyOperations objects tx.operations (sm, s.coordinator.keyVersions) =
      ((sm', versions), .ok ()) ∧ s'.coordinator.stateMachine = some sm' := by
  unfold finishCommit at h
  rcases s.coordinator.finishCommit_cases objects later txId tx with ⟨e, -, heq⟩ | ⟨hwhole, heq⟩
  · rw [heq] at h
    cases h
  · rw [heq, applySection, hsm] at h
    rw [applySection, hsm] at hwhole
    rcases happly : applyOperations objects tx.operations (sm, s.coordinator.keyVersions) with
      ⟨⟨sm', versions⟩, outcome⟩
    dsimp only at h hwhole
    rw [happly] at h hwhole
    cases hwhole
    refine ⟨sm', versions, rfl, ?_⟩
    cases htx : tx.serialisable objects with
    | false =>
      rw [htx] at h
      cases h
    | true =>
      rw [htx] at h
      cases h
      rfl

/-- **A commit that succeeds** has applied the operations of the context to the store. -/
theorem WALCoordinator.commit_true {now : Rat} {ctx : TransactionContext} (hsm : s.coordinator.stateMachine = some sm)
    (hactive : ∀ tx ∈ s.coordinator.activeTxs.get? ctx.txId, tx.status ≠ .prepared)
    (h : s.commit objects now later ctx = (s', .ok true)) :
    ∃ sm' versions, applyOperations objects ctx.operations (sm, s.coordinator.keyVersions) =
      ((sm', versions), .ok ()) ∧ s'.coordinator.stateMachine = some sm' := by
  unfold commit at h
  split_ifs at h with hclosed
  · cases h
  unfold commitTransaction at h
  cases hrecord : s.coordinator.activeTxs.get? ctx.txId with
  | none =>
    rw [hrecord] at h
    cases h
  | some tx =>
    have hmove := prepareMove hrecord now (some ctx)
    rw [hrecord] at h
    dsimp only at h
    rw [if_neg (hactive tx hrecord)] at h
    generalize s.coordinator.prepareTransaction now ctx.txId (some ctx) = out at hmove h
    cases hmove with
    | refuses status message unprepared =>
      dsimp only [withTx, refuse] at h
      rw [Dict.get?_insert_self] at h
      cases h
    | grants locks tokens granted counter result vote free current locked =>
      dsimp only [withTx] at h
      rw [Dict.get?_insert_self] at h
      dsimp only at h
      rw [if_pos vote] at h
      refine finishCommit_true ?_ h
      exact hsm

/-- **The context counts the key from what the commit counts it from.** -/
def CountsAlike (objects : PyObjects) (sm : ReplicatedStateMachine) (calls : List TxCall) (key : String) :
    Prop :=
  (∀ c ∈ calls.find? fun c => c.key = key, c.increments = false) ∨
    (∃ c ∈ calls, c.key = key ∧ c.overwrites = true) ∨
      objects.counted ((sm.get key).getD (.int 0)) = some 0

theorem countsAlike_iff {calls : List TxCall} {key : String} :
    CountsAlike objects sm calls key ↔
      (run (KeyView.next key) .fresh calls = .blind →
        objects.counted ((sm.get key).getD (.int 0)) = some 0) := by
  rw [CountsAlike, run_next_fresh_iff, imp_iff_not_or, not_and_or, or_assoc]
  simp

/-- **The reads of a transaction predict its commit.** After any calls of a context, if the commit
succeeds and the store is still what it was, `get` has returned for a key what the store holds now iff
the key was not incremented first, or was overwritten, or what the store held counts for 0. -/
theorem WALCoordinator.get_predicts_commit_iff (hsm : s.coordinator.stateMachine = some sm) (txId : String)
    (isolationLevel : TxIsolationLevel) (timeoutSeconds now : Rat) (calls : List TxCall) (key : String)
    (hactive : ∀ tx ∈ s.coordinator.activeTxs.get? txId, tx.status ≠ .prepared)
    (hcommit : s.commit objects now later
      ((TransactionContext.new txId isolationLevel timeoutSeconds).calls objects
        s.coordinator.txReadKey calls).1 = (s', .ok true)) :
    (((TransactionContext.new txId isolationLevel timeoutSeconds).calls objects
        s.coordinator.txReadKey calls).1.get s.coordinator.txReadKey key).2 =
          .ok ((s'.coordinator.stateMachine.bind (·.get key)).getD .none) ↔
      CountsAlike objects sm calls key := by
  have hread : s.coordinator.txReadKey = fun key => (sm.get key).getD .none := by
    funext key
    rw [txReadKey, hsm]
  rw [hread] at hcommit ⊢
  have hbegun : (TransactionContext.new txId isolationLevel timeoutSeconds).closed = false := rfl
  obtain ⟨hopen, hid, hops⟩ := calls_open objects
    (fun key => (sm.get key).getD .none) calls hbegun
  obtain ⟨sm', versions, happly, hsm'⟩ := commit_true hsm (hid ▸ hactive) hcommit
  rw [hops] at happly
  have hsees : Sees objects sm key _ sm' _ :=
    (Sees.fresh rfl rfl rfl : Sees objects sm key (.new txId isolationLevel timeoutSeconds) sm .fresh).after
      hbegun happly
  rw [countsAlike_iff, ← hsees.predicts_iff, hsm', get_open _ hopen, Except.ok.injEq]
  rfl

end

def holdsFive : ReplicatedStateMachine :=
  { ReplicatedStateMachine.empty with state := Dict.empty.insert "x" (.int 5) }

def fiveBegun : WALCoordinator :=
  ⟨((TransactionCoordinator.new "a" (some holdsFive)).beginTransaction "1" .serializable 10 0).1, []⟩

def contextOnFive (calls : List TxCall) : TransactionContext :=
  ((TransactionContext.new "tx_1" .serializable 10).calls .values fiveBegun.coordinator.txReadKey calls).1

/-- `x` is read and then incremented. -/
theorem get_predicts_commit_readFirst :
    let calls : List TxCall := [.get "x", .increment "x" 1 none]
    let committed := fiveBegun.commit .values 1 1 (contextOnFive calls)
    CountsAlike .values holdsFive calls "x" ∧ committed.2 = .ok true ∧
      ((contextOnFive calls).get fiveBegun.coordinator.txReadKey "x").2 =
        .ok ((committed.1.coordinator.stateMachine.bind (·.get "x")).getD .none) := by
  have hfirst : CountsAlike .values holdsFive [.get "x", .increment "x" 1 none] "x" := .inl (by decide)
  refine ⟨hfirst, by decide +kernel, ?_⟩
  exact (WALCoordinator.get_predicts_commit_iff rfl "tx_1" .serializable 10 1
    [.get "x", .increment "x" 1 none] "x" (by decide +kernel)
    (s := fiveBegun) (Prod.ext rfl (by decide +kernel))).mpr hfirst

/-- **`x` is 5 and is incremented without having been read**: `get` returns 1, and the commit succeeds and
leaves 6. -/
theorem get_after_blind_increment :
    let calls : List TxCall := [.increment "x" 1 none]
    let committed := fiveBegun.commit .values 1 1 (contextOnFive calls)
    ((contextOnFive calls).get fiveBegun.coordinator.txReadKey "x").2 = .ok (.int 1) ∧
      committed.2 = .ok true ∧
      (committed.1.coordinator.stateMachine.bind (·.get "x")).getD .none = .int 6 := by
  decide +kernel

end MeshWeaver
