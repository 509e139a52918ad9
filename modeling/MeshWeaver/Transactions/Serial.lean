import Mathlib.Data.List.Permutation
import MeshWeaver.Transactions.Lifecycle
import MeshWeaver.Transactions.Prediction

/-!
# Serializability

`Serializable`: there is an order in which the committed transactions, run one after the other, give every call the
answer it got and end in the same store. The coordinator does not check what a client has read: two transactions may
each read what the other one writes, and both commit (`skewed_not_serializable`). The order of the commits is a serial
one as long as no transaction is applied after a value it has read was overwritten, and no commit raises
(`serializable_of_current_reads`).
-/

namespace MeshWeaver

open Lib
open TransactionCoordinator

namespace Session

variable (objects : PyObjects) (x : Session)

def fresh : TransactionContext :=
  .new x.context.txId x.context.isolationLevel x.context.timeoutSeconds

def answers : List (Except PyError Value) := x.calls.map Prod.snd

/-- The transaction once more, alone on a store: its calls, the check of the versions it expects, its
operations. -/
def rerun : StateT Versioned Option (List (Except PyError Value)) := fun store =>
  let (ctx, answers) := x.fresh.calls objects (fun key => (store.1.get key).getD .none) (x.calls.map Prod.fst)
  match store.2.mismatch? ctx.operations, applyOperations objects ctx.operations store with
  | none, (store, .ok ()) => some (answers, store)
  | _, _ => none

end Session

variable {objects : PyObjects} {x : Session}

def serialRun (objects : PyObjects) (xs : List Session) :
    StateT Versioned Option (List (List (Except PyError Value))) :=
  xs.mapM (Session.rerun objects)

theorem serialRun_snoc {xs : List Session} {start store store' : Versioned}
    {answers : List (List (Except PyError Value))} {answer : List (Except PyError Value)}
    (hxs : (serialRun objects xs).run start = some (answers, store))
    (hx : (x.rerun objects).run store = some (answer, store')) :
    (serialRun objects (xs ++ [x])).run start = some (answers ++ [answer], store') := by
  simp only [serialRun] at hxs ⊢
  rw [List.mapM_append, StateT.run_bind, hxs]
  simp [hx]

namespace TxSystem

/-- **Some serial order of the committed transactions explains the run.** -/
def Serializable (objects : PyObjects) (s : TxSystem) (start : Versioned) : Prop :=
  ∃ order : List String, order.Nodup ∧ (∀ id, id ∈ order ↔ s.committed id = true) ∧
    ∃ sm, s.coordinator.stateMachine = some sm ∧
      (serialRun objects (order.filterMap s.sessions.get?)).run start =
        some ((order.filterMap s.sessions.get?).map Session.answers, (sm, s.coordinator.keyVersions))

/-- When a transaction is applied, what it has read from the store is still there. -/
def ReadsCurrent (s : TxSystem) (ev : TxEvent) : Prop :=
  ∀ id ∈ s.applies ev, ∀ x ∈ s.sessions.get? id, ∀ p ∈ x.reads, s.coordinator.txReadKey p.1 = p.2
deriving Decidable

/-- When a transaction is applied, its commit does not raise: the loop completes, and the marker can be
encoded. -/
def CommitReturns (objects : PyObjects) (s : TxSystem) (ev : TxEvent) : Prop :=
  ∀ id ∈ s.applies ev, ∀ tx ∈ s.coordinator.activeTxs.get? id,
    (s.coordinator.applySection objects tx).2 = .ok () ∧ tx.serialisable objects = true
deriving Decidable

end TxSystem

/-! ### A session is its calls -/

namespace Session

/-- The client can still make calls, or waits for a `get`. -/
def isOpen (x : Session) : Prop :=
  match x.phase with
  | .active | .reading _ | .fetched _ _ => True
  | _ => False

/-- **A session is determined by its calls** and by what it was given from the store. -/
structure Faithful (objects : PyObjects) (x : Session) : Prop where
  opened : x.isOpen → x.context.closed = false
  unbuffered : ∀ key, (x.phase = .reading key ∨ ∃ value, x.phase = .fetched key value) →
    x.context.writeSet.get? key = none
  replays : ∀ readKey : String → Value, (∀ p ∈ x.reads, readKey p.1 = p.2) →
    x.fresh.calls objects readKey (x.calls.map Prod.fst) = ({ x.context with closed := false }, x.answers)

namespace Faithful

variable (h : x.Faithful objects)
include h

theorem context_eq (hopen : x.isOpen) : { x.context with closed := false } = x.context := by
  rw [← h.opened hopen]

theorem concat (hopen : x.isOpen) (reads : List (String × Value))
    {ctx : TransactionContext} {c : TxCall} {answer : Except PyError Value}
    (hcall : ∀ readKey : String → Value, (∀ p ∈ x.reads ++ reads, readKey p.1 = p.2) →
      x.context.call objects readKey c = (ctx, answer))
    (readKey : String → Value) (hreads : ∀ p ∈ x.reads ++ reads, readKey p.1 = p.2) :
    x.fresh.calls objects readKey ((x.calls ++ [(c, answer)]).map Prod.fst) =
      (ctx, (x.calls ++ [(c, answer)]).map Prod.snd) := by
  have hold := h.replays readKey fun p hp => hreads p (List.mem_append_left _ hp)
  rw [h.context_eq hopen] at hold
  rw [List.map_append, List.map_append, List.map_singleton, TransactionContext.calls_concat, hold]
  dsimp only
  rw [hcall readKey hreads]
  rfl

theorem of_phase {phase : Phase} (hclosed : ¬ isOpen { x with phase }) : Faithful objects { x with phase } where
  opened := fun hopen => absurd hopen hclosed
  unbuffered := by
    rintro key (hphase | ⟨value, hphase⟩)
    · cases hphase
      exact absurd trivial hclosed
    · cases hphase
      exact absurd trivial hclosed
  replays := h.replays

end Faithful

theorem isOpen_of_phase {phase : Phase} (hphase : x.phase = phase) (h : isOpen { x with phase }) : x.isOpen := by
  rwa [isOpen, hphase]

theorem Move.faithful {c : TransactionCoordinator} {tx : TxRecord} {out : TransactionCoordinator × Session}
    (hmove : Move objects c tx x out) (h : x.Faithful objects) : out.2.Faithful objects := by
  cases hmove with
  | idle => exact h
  | calls ctx call answer phase answers =>
    have hopen := isOpen_of_phase phase trivial
    have hshape : ctx.closed = x.context.closed ∧
        TransactionContext.new ctx.txId ctx.isolationLevel ctx.timeoutSeconds = x.fresh := by
      have hcall := TransactionContext.callMove objects (fun _ => .none) x.context call
      rw [answers] at hcall
      cases hcall <;> exact ⟨rfl, rfl⟩
    have hclosed : ctx.closed = false := hshape.1.trans (h.opened hopen)
    refine ⟨fun _ => hclosed, ?_, fun readKey hreads => ?_⟩
    · rintro key (hphase | ⟨value, hphase⟩)
      · cases phase.symm.trans hphase
      · cases phase.symm.trans hphase
    · change TransactionContext.calls _ _ (.new ctx.txId _ _) _ = _
      rw [hshape.2, ← hclosed]
      exact h.concat hopen [] (fun readKey _ => answers readKey) readKey (by simpa using hreads)
  | reads key phase opened unbuffered =>
    refine ⟨fun _ => opened, ?_, h.replays⟩
    rintro k (hphase | ⟨value, hphase⟩)
    · cases hphase
      exact unbuffered
    · cases hphase
  | fetches key phase =>
    refine ⟨fun _ => h.opened (isOpen_of_phase phase trivial), ?_, h.replays⟩
    rintro k (hphase | ⟨value, hphase⟩)
    · cases hphase
    · cases hphase
      exact h.unbuffered key (Or.inl phase)
  | answers key value phase =>
    have hopen := isOpen_of_phase phase trivial
    have hclosed := h.opened hopen
    refine ⟨fun _ => hclosed, ?_, fun readKey hreads => ?_⟩
    · rintro k (hphase | ⟨value, hphase⟩)
      · cases hphase
      · cases hphase
    · have hget : ∀ readKey : String → Value, (∀ p ∈ x.reads ++ [(key, value)], readKey p.1 = p.2) →
          x.context.call objects readKey (.get key) = (x.context.register key value, .ok value) := by
        intro readKey hreads
        have hvalue : readKey key = value := hreads (key, value) (by simp)
        rw [TransactionContext.call, TransactionContext.get, TransactionContext.whileOpen, hclosed,
          h.unbuffered key (Or.inr ⟨value, phase⟩), hvalue]
        rfl
      have hregistered : { x.context.register key value with closed := false } =
          x.context.register key value := by
        rw [← hclosed]
        rfl
      rw [hregistered]
      exact h.concat hopen [(key, value)] hget readKey hreads
  | closes next phase due =>
    refine ⟨fun hopen => ?_, ?_, h.replays⟩
    · rcases due with rfl | ⟨reason, rfl⟩
      · exact hopen.elim
      · exact hopen.elim
    · rcases due with rfl | ⟨reason, rfl⟩
      · rintro key (hphase | ⟨value, hphase⟩) <;> cases hphase
      · rintro key (hphase | ⟨value, hphase⟩) <;> cases hphase
  | finds phase =>
    refine h.of_phase ?_
    split_ifs
    · exact id
    · exact id
  | _ => exact h.of_phase id

/-- **Run alone on the store at its commit**, a transaction gets the answers it got and leaves the store
that its commit leaves. -/
theorem rerun_of_apply {c : TransactionCoordinator} {sm : ReplicatedStateMachine} {store : Versioned}
    (h : x.Faithful objects) (hsm : c.stateMachine = some sm) (hreads : ∀ p ∈ x.reads, c.txReadKey p.1 = p.2)
    (hversions : c.keyVersions.mismatch? x.context.operations = none)
    (hok : applyOperations objects x.context.operations (sm, c.keyVersions) = (store, .ok ())) :
    (x.rerun objects).run (sm, c.keyVersions) = some (x.answers, store) := by
  have hkey : (fun key => (sm.get key).getD .none) = c.txReadKey := by
    funext key
    rw [TransactionCoordinator.txReadKey, hsm]
  change x.rerun objects (sm, c.keyVersions) = _
  rw [rerun, hkey, h.replays c.txReadKey hreads]
  dsimp only
  rw [hversions, hok]

end Session

/-! ### The order of the commits -/

namespace TxSystem

variable {s : TxSystem} {ev : TxEvent} {start : Versioned}

/-- Every session is its calls. -/
def Faithful (objects : PyObjects) (s : TxSystem) : Prop := ∀ id x, s.sessions.get? id = some x → x.Faithful objects

theorem Faithful.step (h : s.Faithful objects) (hok : s.Ok) (ev : TxEvent) : (s.step objects ev).Faithful objects := by
  have hmove := stepMove objects hok ev
  generalize s.step objects ev = s' at hmove
  cases hmove with
  | same => exact h
  | begins uuid isolationLevel timeoutSeconds now fresh =>
    intro id x hx
    rw [Dict.get?_insert] at hx
    split_ifs at hx with hid
    · cases hx
      refine ⟨fun _ => rfl, ?_, fun _ _ => rfl⟩
      rintro key (hphase | ⟨value, hphase⟩) <;> cases hphase
    · exact h id x hx
  | moves y tx out session record fits move applied =>
    intro id x hx
    rw [Dict.get?_insert] at hx
    split_ifs at hx with hid
    · cases hx
      exact move.faithful (h _ y session)
    · exact h id x hx

theorem committed_insert (c : TransactionCoordinator) (id j : String) (x : Session) :
    committed ⟨c, s.sessions.insert id x⟩ j = if j = id then x.isCommitted else s.committed j := by
  rw [committed, Dict.get?_insert]
  split_ifs with hj
  · rfl
  · rfl

/-- A commit that returns on the values that its client has read has the locks of all its keys. -/
theorem Faithful.appliesWritten (h : s.Faithful objects) (hok : s.Ok) (hpresent : s.coordinator.stateMachine.isSome)
    (hreads : s.ReadsCurrent ev) (hreturns : s.CommitReturns objects ev) : s.AppliesWritten ev := by
  intro id happlies x hx
  obtain ⟨y, tx, hy, hphase, htx, hfits, -⟩ := hok.applied objects happlies
  cases hy.symm.trans hx
  obtain ⟨sm, hsm⟩ := Option.isSome_iff_exists.mp hpresent
  have hsection := (hreturns id happlies tx htx).1
  rw [applySection, hsm, hfits.operations_eq hphase] at hsection
  have hread : s.coordinator.txReadKey = fun key => (sm.get key).getD .none := by
    funext key
    rw [txReadKey, hsm]
  have hreplays := (h id x hx).replays _ (hreads id happlies x hx)
  rw [hread] at hreplays
  have hwritten : ({ x.context with closed := false } : TransactionContext).Written :=
    TransactionContext.calls_written hreplays hsection
  exact hwritten

section serializable
variable (h : s.Serializable objects start)
include h

theorem Serializable.congr {s' : TxSystem} (hcommitted : ∀ id, s'.committed id = s.committed id)
    (hsessions : ∀ id, s.committed id = true → s'.sessions.get? id = s.sessions.get? id)
    (hsm : s'.coordinator.stateMachine = s.coordinator.stateMachine)
    (hversions : s'.coordinator.keyVersions = s.coordinator.keyVersions) : s'.Serializable objects start := by
  obtain ⟨order, hnodup, hmem, sm, hstore, hrun⟩ := h
  have hsame : order.filterMap s'.sessions.get? = order.filterMap s.sessions.get? :=
    List.filterMap_congr fun id hid => hsessions id ((hmem id).mp hid)
  refine ⟨order, hnodup, fun id => ?_, sm, hsm.trans hstore, ?_⟩
  · rw [hmem id, hcommitted id]
  · rwa [hsame, hversions]

theorem Serializable.of_insert {c : TransactionCoordinator} {id : String}
    (hsm : c.stateMachine = s.coordinator.stateMachine) (hversions : c.keyVersions = s.coordinator.keyVersions)
    (hx : s.sessions.get? id = some x ∨ s.committed id = false ∧ x.isCommitted = false) :
    Serializable objects ⟨c, s.sessions.insert id x⟩ start := by
  refine h.congr (fun j => ?_) (fun j hj => ?_) hsm hversions
  · rw [committed_insert]
    split_ifs with hid
    · rcases hx with hx | ⟨hbefore, hafter⟩
      · rw [hid, committed, hx]
        rfl
      · rw [hid, hbefore, hafter]
    · rfl
  · rw [Dict.get?_insert]
    split_ifs with hid
    · rcases hx with hx | ⟨hbefore, -⟩
      · rw [hid, hx]
      · rw [hid, hbefore] at hj
        cases hj
    · rfl

theorem Serializable.applies (hfaithful : s.Faithful objects) {tx : TxRecord} (hx : s.sessions.get? x.txId = some x)
    (hphase : x.phase = .apply) (hops : tx.operations = x.context.operations)
    (hreads : ∀ p ∈ x.reads, s.coordinator.txReadKey p.1 = p.2)
    (hversions : s.coordinator.keyVersions.mismatch? tx.operations = none)
    (hwhole : (s.coordinator.applySection objects tx).2 = .ok ()) (now : Rat) :
    Serializable objects ⟨(s.coordinator.applySection objects tx).1.settle now x.txId tx,
      s.sessions.insert x.txId { x with phase := .returned .commit (.ok true) }⟩ start := by
  obtain ⟨order, hnodup, hmem, sm, hsm, hrun⟩ := h
  have hnew : s.committed x.txId = false := by
    rw [committed, hx, Option.any_some, Session.isCommitted, hphase]
    rfl
  have hnotmem : x.txId ∉ order := fun hin => by
    rw [hmem, hnew] at hin
    cases hin
  rw [applySection, hsm] at hwhole ⊢
  rcases hout : applyOperations objects tx.operations (sm, s.coordinator.keyVersions) with ⟨⟨sm', versions⟩, outcome⟩
  dsimp only at hwhole ⊢
  rw [hout] at hwhole ⊢
  cases hwhole
  rw [hops] at hversions hout
  have hrerun := Session.rerun_of_apply (hfaithful _ x hx) hsm hreads hversions hout
  have hsessions : (order ++ [x.txId]).filterMap
        (s.sessions.insert x.txId { x with phase := .returned .commit (.ok true) }).get? =
      order.filterMap s.sessions.get? ++ [{ x with phase := .returned .commit (.ok true) }] := by
    rw [List.filterMap_append]
    congr 1
    · refine List.filterMap_congr fun id hid => ?_
      rw [Dict.get?_insert, if_neg]
      rintro rfl
      exact hnotmem hid
    · rw [List.filterMap_cons_some (Dict.get?_insert_self ..)]
      rfl
  refine ⟨order ++ [x.txId], ?_, fun id => ?_, sm', rfl, ?_⟩
  · rw [List.nodup_append]
    exact ⟨hnodup, List.nodup_singleton _, fun a ha b hb hab =>
      hnotmem (List.mem_singleton.mp hb ▸ hab ▸ ha)⟩
  · rw [List.mem_append, List.mem_singleton, hmem, committed_insert]
    by_cases hid : id = x.txId
    · rw [if_pos hid]
      exact iff_of_true (Or.inr hid) rfl
    · rw [if_neg hid]
      exact or_iff_left hid
  · rw [hsessions, List.map_append]
    exact serialRun_snoc hrun hrerun

theorem Serializable.step (hok : s.Ok) (hfaithful : s.Faithful objects) (hcurrent : s.AppliesCurrent ev)
    (hreads : s.ReadsCurrent ev) (hreturns : s.CommitReturns objects ev) :
    (s.step objects ev).Serializable objects start := by
  have hmove := stepMove objects hok ev
  generalize s.step objects ev = s' at hmove
  cases hmove with
  | same => exact h
  | begins uuid isolationLevel timeoutSeconds now fresh =>
    refine h.of_insert rfl rfl (Or.inr ⟨?_, rfl⟩)
    rw [committed, Option.any_eq_false]
    intro x hx
    obtain ⟨tx, htx, -⟩ := (hok.sessions _ x hx).recorded
    cases fresh.symm.trans htx
  | moves x tx out session record fits move applied =>
    by_cases hidle : out = (s.coordinator, x)
    · rw [hidle]
      exact h.of_insert rfl rfl (Or.inl session)
    by_cases hphase : x.phase = .apply
    · have happlies := (applied hphase).resolve_right hidle
      obtain ⟨hwhole, hencoded⟩ := hreturns _ happlies tx record
      rcases (move.of_apply hphase).resolve_left hidle with ⟨e, hraised⟩ | ⟨-, now, answer, hanswer, rfl⟩
      · cases hraised.symm.trans hwhole
      · obtain rfl := hanswer.resolve_right (by simp [hencoded])
        rw [Session.Fits, hphase] at fits
        exact h.applies hfaithful session hphase fits.2.1 (hreads _ happlies x session)
          (Versions.mismatch?_eq_none.mpr (hcurrent _ tx happlies record)) hwhole now
    · -- it had not ended, and a commit that returns now would have been applied
      obtain ⟨hsm, hversions⟩ := move.store_eq hphase
      refine h.of_insert hsm hversions (Or.inr ⟨?_, ?_⟩)
      · rw [committed, session, Option.any_some, Session.isCommitted, decide_eq_false_iff_not]
        intro hreturned
        rcases move.of_returned hreturned with hsame | ⟨hraised, -⟩
        · exact hidle hsame
        · cases hraised
      · rw [Session.isCommitted, decide_eq_false_iff_not]
        exact move.not_committed hidle hphase

end serializable

/-- **Serializability**: a run in which no transaction is applied after a value it has read was
overwritten, and no commit raises, is explained by the order of its commits. -/
theorem serializable_of_current_reads (objects : PyObjects) (nodeId : String) (sm : ReplicatedStateMachine)
    (events : List TxEvent)
    (h : Along (step objects) (fun s ev => s.ReadsCurrent ev ∧ s.CommitReturns objects ev)
      (init nodeId (some sm)) events) :
    (after objects nodeId (some sm) events).Serializable objects (sm, .empty) := by
  have hinit : (init nodeId (some sm)).Serializable objects (sm, .empty) :=
    ⟨[], List.nodup_nil, fun id => iff_of_false List.not_mem_nil (by simp [committed, init]), sm,
      rfl, rfl⟩
  have hstep : ∀ (s : TxSystem) (ev : TxEvent),
      (s.Guarded ∧ s.Faithful objects ∧ s.Serializable objects (sm, .empty)) →
      (s.ReadsCurrent ev ∧ s.CommitReturns objects ev) → (s.step objects ev).Guarded ∧
        (s.step objects ev).Faithful objects ∧ (s.step objects ev).Serializable objects (sm, .empty) := by
    rintro s ev ⟨hguarded, hfaithful, hserial⟩ ⟨hreads, hreturns⟩
    have hok := hguarded.1
    have hwritten := hfaithful.appliesWritten hok hguarded.2.1 hreads hreturns
    exact ⟨hguarded.step hwritten, hfaithful.step hok ev,
      hserial.step hok hfaithful (hguarded.appliesCurrent hwritten) hreads hreturns⟩
  have hfaithful : (init nodeId (some sm)).Faithful objects := fun id x hx => by cases hx
  exact (Along.invariant hstep ⟨guarded_init nodeId sm, hfaithful, hinit⟩ h).2.2

/-- While `tx_a` is at work on `x`, `tx_b` writes `y`. -/
def disjoint : List TxEvent :=
  [begins "a", begins "b"] ++ getEvents "tx_a" "x" ++ [.act "tx_b" (.call (.set "y" (.int 2) none))] ++
    commitEvents "tx_b" ++ [.act "tx_a" (.call (.increment "x" 1 (some 0)))] ++ commitEvents "tx_a"

theorem disjoint_serializable :
    let s := after .values "n" (some .empty) disjoint
    s.Serializable .values (.empty, .empty) ∧ s.committed "tx_a" = true ∧ s.committed "tx_b" = true := by
  refine ⟨serializable_of_current_reads .values "n" .empty disjoint ?_, ?_⟩
  · decide +kernel
  · decide +kernel

/-- Each of two transactions reads what the other one writes. -/
def skewed : List TxEvent :=
  [begins "a", begins "b"] ++ getEvents "tx_a" "x" ++ getEvents "tx_b" "y" ++
    [.act "tx_a" (.call (.set "y" (.int 1) none)), .act "tx_b" (.call (.set "x" (.int 1) none))] ++
    commitEvents "tx_a" ++ commitEvents "tx_b"

theorem mem_keys_of_committed {id : String} (h : s.committed id = true) : id ∈ s.sessions.keys := by
  by_contra hnot
  rw [committed, (Dict.get?_eq_none_iff _ _).mpr hnot] at h
  cases h

/-- **Write skew**: both transactions commit, and no serial order gives both the `None` they read. -/
theorem skewed_not_serializable :
    (after .values "n" (some .empty) skewed).committed "tx_a" = true ∧
    (after .values "n" (some .empty) skewed).committed "tx_b" = true ∧
    ¬ (after .values "n" (some .empty) skewed).Serializable .values (.empty, .empty) := by
  have hkeys : (after .values "n" (some .empty) skewed).sessions.keys = ["tx_a", "tx_b"] := by decide +kernel
  have hboth : ∀ id ∈ ["tx_a", "tx_b"], (after .values "n" (some .empty) skewed).committed id = true := by
    decide +kernel
  refine ⟨hboth _ (by simp), hboth _ (by simp), ?_⟩
  rintro ⟨order, hnodup, hmem, sm, -, hrun⟩
  have hperm : order.Perm ["tx_a", "tx_b"] := by
    refine (List.perm_ext_iff_of_nodup hnodup (by decide)).mpr fun id => (hmem id).trans ?_
    exact ⟨fun h => hkeys ▸ mem_keys_of_committed h, hboth id⟩
  -- compare the answers as numbers: the second transaction to run reads 1
  have hanswers : ((serialRun .values (order.filterMap (after .values "n" (some .empty) skewed).sessions.get?)).run
        (.empty, .empty)).map (fun r => r.1.map (List.map fun a => a.toOption.bind fun v => v.toInt.toOption)) =
      some (((order.filterMap (after .values "n" (some .empty) skewed).sessions.get?).map Session.answers).map
        (List.map fun a => a.toOption.bind fun v => v.toInt.toOption)) := by
    rw [hrun]
    rfl
  have horder : order = ["tx_a", "tx_b"] ∨ order = ["tx_b", "tx_a"] := by
    simpa using List.mem_permutations'.mpr hperm
  clear hrun hmem hnodup hperm
  rcases horder with rfl | rfl
  · revert hanswers
    decide +kernel
  · revert hanswers
    decide +kernel

end TxSystem

end MeshWeaver
