import MeshWeaver.Transactions.Logged

/-!
# All or nothing

`commit()` of a client with nothing else going on, together with the log. It raises in the loop over the operations or
when its marker is encoded; by then operations have been applied. The theorem says exactly when a caller can take the
outcome at its word.
-/

namespace MeshWeaver

open Lib TransactionCoordinator PyObjects

/-- The coordinator with what has been appended to its log. -/
structure WALCoordinator where
  coordinator : TransactionCoordinator
  wal : List WALAppend

namespace WALCoordinator

variable (objects : PyObjects) (s : WALCoordinator)

def finishCommit (now : Rat) (txId : String) (tx : TxRecord) : WALCoordinator × Except PyError Bool :=
  match s.coordinator.finishCommit objects now txId tx with
  | (c, .error e) => ({ s with coordinator := c }, .error e)
  | (c, .ok ()) => (⟨c, s.wal ++ [.commit txId tx]⟩, .ok true)

def commitTransaction (now later : Rat) (txId : String) (context : TransactionContext) :
    WALCoordinator × Except PyError Bool :=
  match s.coordinator.activeTxs.get? txId with
  | none => (s, .ok false)
  | some tx =>
    if tx.status = .prepared then s.finishCommit objects later txId tx
    else
      let (c, result) := s.coordinator.prepareTransaction now txId (some context)
      -- `tx` is the record that the prepare has changed
      match c.activeTxs.get? txId with
      | none => (s, .ok false)
      | some tx =>
        if result.voteYes then
          finishCommit objects ⟨c, s.wal ++ [.prepare txId tx]⟩ later txId tx
        else
          (⟨(c.rollbackTransaction later txId result.errorMessage).1,
            s.wal ++ [.abort txId result.errorMessage]⟩, .ok false)

def commit (now later : Rat) (context : TransactionContext) : WALCoordinator × Except PyError Bool :=
  if context.closed then (s, .error (.runtimeError "Transaction already closed"))
  else s.commitTransaction objects now later context.txId context

end WALCoordinator

/-! ### The loop over the operations -/

/-- **No increment meets an object that it cannot count.** `held` is what a key holds, unless it is
nothing or a number. -/
def Smooth (objects : PyObjects) : (String → Option Value) → List TxOperation → Prop
  | _, [] => True
  | held, op :: operations =>
    (op.opType = .increment → ∀ v ∈ held op.key, objects.Countable v) ∧
      Smooth objects (Function.update held op.key (if op.opType = .set then some op.value else none))
        operations

/-- The first operation is an increment of an object that it cannot count. -/
def RaisesAtOnce (objects : PyObjects) (sm : ReplicatedStateMachine) (operations : List TxOperation) :
    Prop :=
  ∃ op ∈ operations.head?, op.opType = .increment ∧ ∃ v ∈ sm.get op.key, ¬ objects.Countable v

section loop
variable (objects : PyObjects) {sm : ReplicatedStateMachine} {op : TxOperation}
  {operations : List TxOperation}

/-- The store holds what is held, and nothing or a number under the other keys. -/
def Knows (sm : ReplicatedStateMachine) (held : String → Option Value) : Prop :=
  ∀ key, sm.get key = held key ∨ held key = none ∧ ∃ z, sm.get key = some (.int z)

theorem knows_get (sm : ReplicatedStateMachine) : Knows sm sm.get := fun _ => .inl rfl

section knows
variable {held : String → Option Value} (h : Knows sm held)
include h

theorem Knows.update {key : String} {state : Dict String Value} {x y : Option Value}
    (hget : ∀ k, state.get? k = if k = key then y else sm.state.get? k)
    (hxy : y = x ∨ x = none ∧ ∃ z, y = some (.int z)) : Knows { sm with state } (Function.update held key x) := by
  intro k
  change state.get? k = _ ∨ _ ∧ ∃ z, state.get? k = _
  rw [hget]
  by_cases hk : k = key
  · subst hk
    simpa using hxy
  · rw [if_neg hk, Function.update_of_ne hk]
    exact h k

theorem Knows.countable_iff (key : String) :
    objects.Countable ((sm.get key).getD (.int 0)) ↔ ∀ v ∈ held key, objects.Countable v := by
  rcases h key with hget | ⟨hnone, z, hget⟩
  · rw [hget]
    cases held key with
    | none => exact iff_of_true (countable_int 0) nofun
    | some v => simp
  · rw [hget, hnone]
    exact iff_of_true (countable_int z) nofun

/-- **When one operation applies**, and what its key holds then. -/
theorem apply_cases (op : TxOperation) :
    (op.opType = .increment ∧ ¬ (∀ v ∈ held op.key, objects.Countable v) ∧ ∃ e, op.apply objects sm = .error e) ∨
      ((op.opType = .increment → ∀ v ∈ held op.key, objects.Countable v) ∧
        ∃ sm', op.apply objects sm = .ok sm' ∧
          Knows sm' (Function.update held op.key (if op.opType = .set then some op.value else none))) := by
  unfold TxOperation.apply
  cases op.opType with
  | set => exact .inr ⟨nofun, _, rfl, h.update (fun k => Dict.get?_insert ..) (.inl rfl)⟩
  | delete => exact .inr ⟨nofun, _, rfl, h.update (fun k => Dict.get?_erase ..) (.inl rfl)⟩
  | increment =>
    rw [← h.countable_iff objects]
    by_cases hcountable : objects.Countable ((sm.get op.key).getD (.int 0))
    · obtain ⟨z, hz⟩ := incremented_of_countable hcountable op.delta
      rw [hz]
      exact .inr ⟨fun _ => hcountable, _, rfl, h.update (fun k => Dict.get?_insert ..) (.inr ⟨rfl, _, rfl⟩)⟩
    · obtain ⟨e, he⟩ := incremented_of_not_countable hcountable op.delta
      rw [he]
      exact .inl ⟨rfl, hcountable, e, rfl⟩

/-- **The loop completes** exactly if no increment meets an object that it cannot count. -/
theorem applyOperations_ok_iff (operations : List TxOperation) (versions : Versions) :
    (applyOperations objects operations (sm, versions)).2 = .ok () ↔ Smooth objects held operations := by
  induction operations generalizing sm held versions with
  | nil => simp [applyOperations, Smooth]
  | cons op operations ih =>
    rw [applyOperations, Smooth]
    rcases apply_cases objects h op with ⟨htype, hbad, e, he⟩ | ⟨hgood, sm', hsm', h'⟩
    · rw [he]
      refine iff_of_false ?_ fun hsmooth => hbad (hsmooth.1 htype)
      rintro ⟨⟩
    · rw [hsm', and_iff_right hgood]
      exact ih h' _

end knows

theorem raisesAtOnce_cons : RaisesAtOnce objects sm (op :: operations) ↔ ∃ e, op.apply objects sm = .error e := by
  have hhead : RaisesAtOnce objects sm (op :: operations) ↔
      op.opType = .increment ∧ ¬ ∀ v ∈ sm.get op.key, objects.Countable v := by
    simp [RaisesAtOnce]
  rw [hhead]
  rcases apply_cases objects (knows_get sm) op with
    ⟨htype, hbad, e, he⟩ | ⟨hgood, sm', hsm', -⟩
  · exact iff_of_true ⟨htype, hbad⟩ ⟨e, he⟩
  · refine iff_of_false (fun hraise => hraise.2 (hgood hraise.1)) ?_
    rw [hsm']
    exact nofun

variable {objects} in
theorem RaisesAtOnce.not_smooth (h : RaisesAtOnce objects sm operations) : ¬ Smooth objects sm.get operations := by
  obtain ⟨op, hop, htype, v, hv, hbad⟩ := h
  obtain ⟨rest, rfl⟩ := List.head?_eq_some_iff.mp hop
  exact fun hsmooth => hbad (hsmooth.1 htype v hv)

/-- **The loop leaves store and versions alone** only if it does nothing or raises at once. -/
theorem applyOperations_eq_self_iff (sm : ReplicatedStateMachine) (operations : List TxOperation)
    (versions : Versions) :
    (applyOperations objects operations (sm, versions)).1 = (sm, versions) ↔
      operations = [] ∨ RaisesAtOnce objects sm operations := by
  cases operations with
  | nil => simp [applyOperations]
  | cons op operations =>
    rw [raisesAtOnce_cons, applyOperations]
    cases op.apply objects sm with
    | error e => simp
    | ok sm' =>
      refine iff_of_false (fun hsame => ?_) (by simp)
      have hbump := (Versions.current_applyOperations objects operations (sm', versions.bump op.key) op.key).1
      rw [Versions.current_bump, if_pos rfl, show (applyOperations objects operations
        (sm', versions.bump op.key)).1.2 = versions from congrArg Prod.snd hsame] at hbump
      omega

end loop

/-! ### The whole call -/

/-- The transaction holds no lock but these. -/
def TransactionCoordinator.HoldsOnly (c : TransactionCoordinator) (txId : String) (keys : List String) :
    Prop :=
  ∀ key, c.keyLocks.get? key = some txId → key ∈ keys

/-- The marker of a commit of this transaction that lists all its operations. -/
def WALAppend.Lists (marker : WALAppend) (ctx : TransactionContext) : Prop :=
  Dict.lookup "action" marker.payload = some (.str "COMMIT") ∧
    Dict.lookup "tx_id" marker.payload = some (.str ctx.txId) ∧
    Dict.lookup "operations" marker.payload = some (.list (ctx.operations.map TxOperation.toDict))

/-- **All or nothing towards the caller**: when the call returns `True` the marker of the commit is in the
log; otherwise store and versions are as before, and the transaction holds no lock. -/
def AllOrNothing (c : TransactionCoordinator) (ctx : TransactionContext)
    (out : WALCoordinator × Except PyError Bool) : Prop :=
  match out.2 with
  | .ok true => ∃ earlier marker, out.1.wal = earlier ++ [marker] ∧ marker.Lists ctx
  | _ =>
    out.1.coordinator.stateMachine = c.stateMachine ∧ out.1.coordinator.keyVersions = c.keyVersions ∧
      out.1.coordinator.HoldsOnly ctx.txId []

/-- **When the operations of a record are applied wholly**: no increment meets an object that it cannot
count, and the marker can be encoded and lists what the context has buffered, or there is nothing to
apply. The last case is a call that raises at once and has locked nothing. -/
def AppliesWhole (objects : PyObjects) (c : TransactionCoordinator) (ctx : TransactionContext)
    (tx : TxRecord) (locked : List String) : Prop :=
  ((∀ sm ∈ c.stateMachine, Smooth objects sm.get tx.operations) ∧
      (tx.serialisable objects = true ∧ tx.operations = ctx.operations ∨
        tx.serialisable objects = false ∧ (c.stateMachine = none ∨ tx.operations = []) ∧
          c.HoldsOnly ctx.txId tx.writeSet.keys)) ∨
    (∃ sm ∈ c.stateMachine, RaisesAtOnce objects sm tx.operations) ∧ c.HoldsOnly ctx.txId [] ∧ locked = []

/-- The prepare of the transaction is refused. -/
def TransactionContext.Refused (ctx : TransactionContext) (c : TransactionCoordinator) (tx : TxRecord)
    (now : Rat) : Prop :=
  (tx.withContext (some ctx)).isExpired now = true ∨ ctx.Blocked c ctx.txId ∨
    ctx.ExpectsOther c.keyVersions.current

/-- **The condition**, on the objects, the coordinator before the call and the context. -/
def CommitsWhole (objects : PyObjects) (c : TransactionCoordinator) (ctx : TransactionContext)
    (now : Rat) : Prop :=
  if ctx.closed then c.HoldsOnly ctx.txId []
  else
    match c.activeTxs.get? ctx.txId with
    | none => c.HoldsOnly ctx.txId []
    | some tx =>
      if tx.status = .prepared then AppliesWhole objects c ctx tx []
      else
        (ctx.Refused c tx now ∧ c.HoldsOnly ctx.txId ctx.writeSet.keys) ∨
          (¬ ctx.Refused c tx now ∧
            AppliesWhole objects c ctx (tx.withContext (some ctx)) ctx.writeSet.keys)

theorem TxOperation.toDict_injective : Function.Injective TxOperation.toDict := by
  rintro ⟨type, key, value, delta, version⟩ ⟨type', key', value', delta', version'⟩ h
  simp only [toDict, Value.dict.injEq, List.cons.injEq, Prod.mk.injEq, Value.str.injEq, Value.int.injEq,
    true_and, and_true] at h
  obtain ⟨htype, rfl, rfl, rfl, hversion⟩ := h
  have htype : type = type' := by
    cases type <;> cases type' <;> first | rfl | simp [TxOperationType.value] at htype
  have hversion : version = version' := by
    cases version <;> cases version' <;> simp_all [Value.ofOptInt]
  rw [htype, hversion]

theorem WALAppend.lists_commit_iff (ctx : TransactionContext) (tx : TxRecord) :
    (WALAppend.commit ctx.txId tx).Lists ctx ↔ tx.operations = ctx.operations := by
  have hlists : (WALAppend.commit ctx.txId tx).Lists ctx ↔
      tx.operations.map TxOperation.toDict = ctx.operations.map TxOperation.toDict := by
    simp [Lists, WALAppend.commit, Dict.lookup]
  rw [hlists]
  exact TxOperation.toDict_injective.list_map.eq_iff

section call
variable {objects : PyObjects} {c c' : TransactionCoordinator} {ctx : TransactionContext}

theorem holdsOnly_nil_release {txId : String} {keys : List String}
    (hlocks : c'.keyLocks = releaseLocks txId keys c.keyLocks) :
    c'.HoldsOnly txId [] ↔ c.HoldsOnly txId keys := by
  refine forall_congr' fun key => ?_
  rw [hlocks, TransactionCoordinator.get?_releaseLocks]
  by_cases hheld : c.keyLocks.get? key = some txId
  · by_cases hkey : key ∈ keys
    · simp [hheld, hkey]
    · simp [hheld, hkey]
  · simp [hheld]

theorem finishCommit_iff {s : WALCoordinator} (hsm : s.coordinator.stateMachine = c.stateMachine)
    (hversions : s.coordinator.keyVersions = c.keyVersions) (now : Rat) (tx : TxRecord) :
    AllOrNothing c ctx (s.finishCommit objects now ctx.txId tx) ↔ AppliesWhole objects s.coordinator ctx tx [] := by
  have hlists : (∃ earlier marker,
      s.wal ++ [.commit ctx.txId tx] = earlier ++ [marker] ∧ marker.Lists ctx) ↔ tx.operations = ctx.operations := by
    rw [← WALAppend.lists_commit_iff]
    constructor
    · rintro ⟨earlier, marker, heq, h⟩
      rw [← List.singleton_inj.mp (List.append_inj' heq rfl).2] at h
      exact h
    · exact fun h => ⟨_, _, rfl, h⟩
  unfold WALCoordinator.finishCommit finishCommit applySection AppliesWhole
  cases hstore : s.coordinator.stateMachine with
  | none =>
    cases hserial : tx.serialisable objects with
    | true =>
      refine Iff.trans hlists ?_
      simp
    | false =>
      change s.coordinator.stateMachine = _ ∧ s.coordinator.keyVersions = _ ∧ _ ↔ _
      rw [holdsOnly_nil_release (c := s.coordinator) rfl]
      simp [hsm, hversions]
  | some sm =>
    dsimp only
    have hok := applyOperations_ok_iff objects (knows_get sm) tx.operations s.coordinator.keyVersions
    have hself := applyOperations_eq_self_iff objects sm tx.operations s.coordinator.keyVersions
    generalize applyOperations objects tx.operations (sm, s.coordinator.keyVersions) = out at hok hself
    obtain ⟨⟨sm', versions'⟩, outcome⟩ := out
    have hsame : (some sm' = c.stateMachine ∧ versions' = c.keyVersions) ↔
        tx.operations = [] ∨ RaisesAtOnce objects sm tx.operations := by
      rw [← hself, ← hsm, hstore, ← hversions, Option.some.injEq, Prod.mk.injEq]
    cases outcome with
    | error e =>
      have hrough : ¬ Smooth objects sm.get tx.operations := fun h => nomatch hok.mpr h
      have hops : tx.operations ≠ [] := fun h => hrough (h ▸ trivial)
      change some sm' = _ ∧ versions' = _ ∧ s.coordinator.HoldsOnly ctx.txId [] ↔ _
      rw [← and_assoc, hsame, or_iff_right hops]
      simp [hrough]
    | ok =>
      have hsmooth : Smooth objects sm.get tx.operations := hok.mp rfl
      have hnot : ¬ RaisesAtOnce objects sm tx.operations := fun h => h.not_smooth hsmooth
      cases hserial : tx.serialisable objects with
      | true =>
        refine Iff.trans hlists ?_
        simp [hsmooth, hnot]
      | false =>
        change some sm' = _ ∧ versions' = _ ∧ _ ↔ _
        rw [holdsOnly_nil_release (c := s.coordinator) rfl, ← and_assoc, hsame, or_iff_left hnot]
        simp [hsmooth, hnot]

theorem holdsOnly_granted {txId : String} {locked keys : List String}
    (hlocks : ∀ k, c'.keyLocks.get? k = if k ∈ locked then some txId else c.keyLocks.get? k) :
    c'.HoldsOnly txId keys ↔ c.HoldsOnly txId keys ∧ ∀ key ∈ locked, key ∈ keys := by
  constructor
  · intro h
    refine ⟨fun key hheld => h key ?_, fun key hkey => h key ?_⟩
    · rw [hlocks]
      split_ifs
      · rfl
      · exact hheld
    · rw [hlocks, if_pos hkey]
  · rintro ⟨h, hlocked⟩ key hheld
    rw [hlocks] at hheld
    by_cases hkey : key ∈ locked
    · exact hlocked key hkey
    · rw [if_neg hkey] at hheld
      exact h key hheld

theorem appliesWhole_granted {tx tx' : TxRecord} (hsm : c'.stateMachine = c.stateMachine)
    (hlocks : ∀ k, c'.keyLocks.get? k =
      if k ∈ tx.writeSet.keys then some ctx.txId else c.keyLocks.get? k)
    (htx : tx' = { tx with status := tx'.status, fencingTokens := tx'.fencingTokens }) :
    AppliesWhole objects c' ctx tx' [] ↔ AppliesWhole objects c ctx tx tx.writeSet.keys := by
  have hops : tx'.operations = tx.operations := by rw [htx]
  have hwrites : tx'.writeSet = tx.writeSet := by rw [htx]
  have hserial : tx'.serialisable objects = tx.serialisable objects := by rw [htx]; rfl
  have hnone : c'.HoldsOnly ctx.txId [] ↔ c.HoldsOnly ctx.txId [] ∧ tx.writeSet.keys = [] := by
    rw [holdsOnly_granted hlocks, List.eq_nil_iff_forall_not_mem]
    simp
  have honly : c'.HoldsOnly ctx.txId tx.writeSet.keys ↔ c.HoldsOnly ctx.txId tx.writeSet.keys := by
    rw [holdsOnly_granted hlocks]
    simp
  unfold AppliesWhole
  rw [hsm, hops, hwrites, hserial, hnone, honly]
  simp

/-- **`commit()` is all or nothing exactly under the condition**, for all objects, in every state of the
coordinator, for every context. -/
theorem commit_all_or_nothing_iff (objects : PyObjects) (s : WALCoordinator) (now later : Rat)
    (ctx : TransactionContext) :
    AllOrNothing s.coordinator ctx (s.commit objects now later ctx) ↔
      CommitsWhole objects s.coordinator ctx now := by
  unfold WALCoordinator.commit CommitsWhole
  by_cases hclosed : ctx.closed = true
  · rw [if_pos hclosed, if_pos hclosed]
    simp [AllOrNothing]
  rw [if_neg hclosed, if_neg hclosed]
  unfold WALCoordinator.commitTransaction
  cases hrecord : s.coordinator.activeTxs.get? ctx.txId with
  | none => simp [AllOrNothing]
  | some tx =>
    dsimp only
    by_cases hprepared : tx.status = .prepared
    · rw [if_pos hprepared, if_pos hprepared]
      exact finishCommit_iff rfl rfl later tx
    rw [if_neg hprepared, if_neg hprepared]
    have hvote := prepare_vote_iff hrecord now ctx
    have hmove := prepareMove hrecord now (some ctx)
    have hrefused : ctx.Refused s.coordinator tx now ↔
        ¬ (s.coordinator.prepareTransaction now ctx.txId (some ctx)).2.voteYes = true := by
      rw [hvote, TransactionContext.Refused, ← Bool.not_eq_true]
      tauto
    rw [hrefused]
    clear hvote hrefused
    generalize s.coordinator.prepareTransaction now ctx.txId (some ctx) = out at hmove
    cases hmove with
    | refuses status message unprepared =>
      have hget : (s.coordinator.withTx ctx.txId { tx.withContext (some ctx) with status }).activeTxs.get?
          ctx.txId = some { tx.withContext (some ctx) with status } := Dict.get?_insert_self ..
      have hvote : (s.coordinator.refuse ctx.txId message).voteYes = false := rfl
      dsimp only
      rw [hget, hvote]
      dsimp only
      rw [if_neg (by simp), rollbackTransaction, hget]
      change s.coordinator.stateMachine = _ ∧ s.coordinator.keyVersions = _ ∧ _ ↔ _
      rw [holdsOnly_nil_release (c := s.coordinator) rfl]
      simp [TxRecord.withContext]
    | grants locks tokens granted counter result vote free current locked =>
      dsimp only
      generalize hc : withTx _ ctx.txId _ = c'
      have hget : c'.activeTxs.get? ctx.txId =
          some { tx.withContext (some ctx) with status := .prepared, fencingTokens := granted } := by
        rw [← hc]
        exact Dict.get?_insert_self ..
      have hsm : c'.stateMachine = s.coordinator.stateMachine := by rw [← hc]; rfl
      have hversions : c'.keyVersions = s.coordinator.keyVersions := by rw [← hc]; rfl
      have hlocks : ∀ k, c'.keyLocks.get? k =
          if k ∈ ctx.writeSet.keys then some ctx.txId else s.coordinator.keyLocks.get? k := by
        rw [← hc]
        exact locked
      rw [hget]
      dsimp only
      rw [if_pos vote, vote]
      refine (finishCommit_iff (c := s.coordinator) hsm hversions later _).trans ?_
      rw [appliesWhole_granted hsm hlocks rfl]
      exact ⟨fun h => .inr ⟨not_not.mpr rfl, h⟩, fun h => h.elim (fun h => absurd rfl h.1) And.right⟩

end call

/-! ### What is left when a commit raises -/

/-- `json.dumps` takes JSON values only. -/
def PyObjects.jsonOnly : PyObjects := { values with serialisable := Value.isJson }

def oneBegun : WALCoordinator :=
  ⟨((TransactionCoordinator.new "a" (some .empty)).beginTransaction "1" .serializable 10 0).1, []⟩

def contextOf (objects : PyObjects) (calls : List TxCall) : TransactionContext :=
  ((TransactionContext.new "tx_1" .serializable 10).calls objects (fun _ => .none) calls).1

/-- A transaction sets `x` to an object that is not JSON: its commit raises, `x` is set, its version is
`1`, and there is no marker of a commit. Another one increments a value that `int()` does not take: its
commit raises, `y` is set and stays locked. -/
theorem commit_raises_after_effect :
    let unencoded := oneBegun.commit .jsonOnly 1 1 (contextOf .jsonOnly [.set "x" someObject none])
    let uncounted := oneBegun.commit .infinity 1 1
      (contextOf .infinity [.set "y" (.int 1) none, .set "x" someObject none, .increment "x" 1 none])
    (unencoded.2 = .error (.typeError "Object is not JSON serializable") ∧
        (unencoded.1.coordinator.stateMachine.bind fun sm => sm.get "x") = some someObject ∧
        unencoded.1.coordinator.keyVersions.current "x" = 1 ∧
        (unencoded.1.wal.map fun marker => Dict.lookup "action" marker.payload) =
          [some (.str "PREPARE")]) ∧
      uncounted.2 = .error (.overflowError "cannot convert float infinity to integer") ∧
        (uncounted.1.coordinator.stateMachine.bind fun sm => sm.get "y") = some (.int 1) ∧
        uncounted.1.coordinator.keyVersions.current "y" = 1 ∧
        uncounted.1.coordinator.keyLocks.get? "y" = some "tx_1" := by
  decide +kernel

end MeshWeaver
