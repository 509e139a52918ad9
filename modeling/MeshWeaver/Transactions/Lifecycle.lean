import MeshWeaver.Transactions.Invariant

/-!
# Commits and rollbacks

`first_committer_wins`: operations are applied only while the versions they expect are current, so of two transactions
that expect the same version of a key at most one commits. That needs the lock of every key that is applied, and an
increment that raised has left an operation whose key is not locked. `lock_table_invariant`: locks are held by
prepared transactions only, operations are applied once at most and never after a rollback; a transaction whose commit
raises keeps its locks.
-/

namespace MeshWeaver

open Lib
open TransactionCoordinator

namespace Session

variable {objects : PyObjects} {c : TransactionCoordinator} {tx tx' : TxRecord} {x : Session}
  {out : TransactionCoordinator × Session} (hmove : Move objects c tx x out)
include hmove

theorem Move.store_eq (hphase : x.phase ≠ .apply) :
    out.1.stateMachine = c.stateMachine ∧ out.1.keyVersions = c.keyVersions := by
  cases hmove with
  | sticks e phase | applies now answer phase => exact absurd phase hphase
  | _ => exact ⟨rfl, rfl⟩

/-- **The version of a key stays** unless an operation on it is applied. -/
theorem Move.current_eq {k : String} (hk : x.phase = .apply → ∀ op ∈ tx.operations, op.key ≠ k) :
    out.1.keyVersions.current k = c.keyVersions.current k := by
  by_cases hphase : x.phase = .apply
  · obtain ⟨sm, versions, hsection, -, hversions⟩ := applySection_eq objects c tx
    have hnone : tx.operations.countP (fun op => op.key = k) = 0 := by
      rw [List.countP_eq_zero]
      simpa using hk hphase
    obtain ⟨hlow, hhigh, -⟩ := hversions k
    have hsame : versions.current k = c.keyVersions.current k := by omega
    cases hmove with
    | sticks e phase raised | applies now answer phase whole encoded =>
      rwa [hsection]
    | _ => rfl
  · rw [(hmove.store_eq hphase).2]

/-- **A record becomes committed** when all of its operations have been applied. -/
theorem Move.committed (htx : c.activeTxs.get? x.txId = some tx) (hfits : x.Fits tx)
    (htx' : out.1.activeTxs.get? x.txId = some tx') (hcommitted : tx'.status = .committed) :
    tx' = tx ∨ x.phase = .apply ∧ tx'.operations = tx.operations ∧ (c.stateMachine.isSome → ∀ op ∈ tx.operations,
      c.keyVersions.current op.key < out.1.keyVersions.current op.key) := by
  have hkept : c.activeTxs.get? x.txId = some tx' → tx' = tx := fun h => Option.some.inj (h.symm.trans htx)
  have hreplaced : ∀ {new : TxRecord}, (c.activeTxs.insert x.txId new).get? x.txId = some tx' → tx' = new :=
    fun h => Option.some.inj (h.symm.trans (Dict.get?_insert_self ..))
  obtain ⟨sm, versions, hsection, -, hversions⟩ := applySection_eq objects c tx
  cases hmove with
  | refused status reason phase unprepared =>
    obtain rfl := hreplaced htx'
    rw [Fits, phase] at hfits
    rcases unprepared with rfl | rfl
    · cases hfits.symm.trans hcommitted
    · cases hcommitted
  | granted | aborts =>
    obtain rfl := hreplaced htx'
    cases hcommitted
  | sticks e phase raised =>
    rw [hsection] at htx'
    exact Or.inl (hkept htx')
  | applies now answer phase whole encoded =>
    rw [hsection] at htx' ⊢
    obtain rfl := hreplaced htx'
    refine Or.inr ⟨phase, rfl, fun hpresent op hop => ?_⟩
    change _ < versions.current op.key
    rw [(hversions op.key).2.2 whole hpresent]
    have hcount : 0 < tx.operations.countP fun o => o.key = op.key :=
      List.countP_pos_iff.mpr ⟨op, hop, decide_eq_true rfl⟩
    omega
  | _ => exact Or.inl (hkept htx')

/-- A commit returns `True` in the section that applies the operations only. -/
theorem Move.not_committed (hidle : out ≠ (c, x)) (hphase : x.phase ≠ .apply) :
    out.2.phase ≠ .returned .commit (.ok true) := by
  intro hcommitted
  cases hmove with
  | idle => exact hidle rfl
  | calls ctx call answer phase => cases phase.symm.trans hcommitted
  | closes next phase due => rcases due with rfl | ⟨reason, rfl⟩ <;> cases hcommitted
  | finds phase =>
    dsimp only at hcommitted
    split_ifs at hcommitted
  | applies now answer phase => exact hphase phase
  | aborts now reason call answer phase refusal =>
    cases hcommitted
    cases refusal
  | _ => cases hcommitted

end Session

namespace TxSystem

variable (objects : PyObjects) {s : TxSystem} {id : String} {ev : TxEvent}

theorem Ok.applied (h : s.Ok) (happlies : s.applies ev = some id) :
    ∃ x tx, s.sessions.get? id = some x ∧ x.phase = .apply ∧ s.coordinator.activeTxs.get? id = some tx ∧
      x.Fits tx ∧ ∃ answer,
        (s.step objects ev).sessions.get? id = some { x with phase := .returned .commit answer } := by
  unfold applies at happlies
  split at happlies
  · split at happlies
    · rename_i hphase
      cases happlies
      obtain ⟨x, hx, hphase⟩ := Option.map_eq_some_iff.mp hphase
      obtain ⟨tx, htx, hfits⟩ := (h.sessions id x hx).recorded
      refine ⟨x, tx, hx, hphase, htx, hfits, ?_⟩
      have hname := (h.sessions id x hx).named
      rw [TxSystem.step, hx]
      dsimp only [Session.advance]
      rw [Session.proceed, hphase, hname, htx, Dict.get?_insert_self]
      exact ⟨_, rfl⟩
    · cases happlies
  · cases happlies

/-! ### Versions -/

theorem spares_step (h : s.Ok) (ev : TxEvent) :
    ∃ id, Spares id s.coordinator (s.step objects ev).coordinator := by
  have hmove := stepMove objects h ev
  generalize s.step objects ev = s' at hmove
  cases hmove with
  | same => exact ⟨"", .refl _ _⟩
  | begins uuid isolationLevel timeoutSeconds now fresh =>
    exact ⟨"tx_" ++ uuid, fun j hj => get?_insert_of_ne hj, fun _ _ _ => Iff.rfl, fun _ => le_rfl, rfl⟩
  | moves x tx out session record fits move applied => exact ⟨x.txId, move.spares fun k holder => h.holder_ne⟩

variable {objects}

theorem current_le_run (h : s.Ok) (events : List TxEvent) (k : String) :
    s.coordinator.keyVersions.current k ≤ (run (step objects) s events).coordinator.keyVersions.current k := by
  induction events generalizing s with
  | nil => exact le_rfl
  | cons ev events ih =>
    obtain ⟨id, hspares⟩ := spares_step objects h ev
    exact (hspares.versions k).trans (ih (h.step ev))

/-- The transaction names the key with this expected version. -/
def Names (k : String) (v : Int) (operations : List TxOperation) : Prop :=
  ∃ op ∈ operations, op.key = k ∧ op.expectedVersion = some v
deriving Decidable

/-- When a transaction is applied, no call of its client has raised. -/
def AppliesUnraised (s : TxSystem) (ev : TxEvent) : Prop :=
  ∀ id ∈ s.applies ev, ∀ x ∈ s.sessions.get? id, x.Unraised
deriving Decidable

/-- When a transaction is applied, the key of each of its operations is in its write set. -/
def AppliesWritten (s : TxSystem) (ev : TxEvent) : Prop :=
  ∀ id ∈ s.applies ev, ∀ x ∈ s.sessions.get? id, x.context.Written

/-- **What the version check gives**: the versions that a transaction expects are current until it is
applied, and surpassed when it has committed; so no two committed ones expect the same. -/
structure Fenced (s : TxSystem) : Prop where
  current : ∀ id x, s.sessions.get? id = some x → x.phase = .apply → x.context.Written →
    ∀ op ∈ x.context.operations, ∀ v, op.expectedVersion = some v → s.coordinator.keyVersions.current op.key = v
  surpassed : ∀ id tx, s.coordinator.activeTxs.get? id = some tx → tx.status = .committed →
    ∀ op ∈ tx.operations, ∀ v, op.expectedVersion = some v → v < s.coordinator.keyVersions.current op.key
  exclusive : ∀ i j tx tx', i ≠ j → s.coordinator.activeTxs.get? i = some tx →
    s.coordinator.activeTxs.get? j = some tx' → tx.status = .committed → tx'.status = .committed →
    ∀ k v, Names k v tx.operations → ¬ Names k v tx'.operations

/-- A transaction that is to be applied, and all of whose keys are locked, does not expect what a committed
one has. -/
theorem Fenced.not_both (h : s.Fenced) {i j : String} {x : Session} {tx : TxRecord} (hx : s.sessions.get? i = some x)
    (happly : x.phase = .apply) (hwritten : x.context.Written) (htx : s.coordinator.activeTxs.get? j = some tx)
    (hcommitted : tx.status = .committed) {k : String} {v : Int} (hnames : Names k v x.context.operations) :
    ¬ Names k v tx.operations := by
  rintro ⟨op', hop', rfl, hv'⟩
  obtain ⟨op, hop, hkey, hv⟩ := hnames
  have hcurrent := h.current i x hx happly hwritten op hop v hv
  have hpassed := h.surpassed j tx htx hcommitted op' hop' v hv'
  rw [hkey] at hcurrent
  omega

section moves
variable (hok : s.Ok) {x : Session} {tx : TxRecord} {out : TransactionCoordinator × Session} (hfits : x.Fits tx)
  (hmove : x.Move objects s.coordinator tx out)
  (hwritten : x.phase = .apply → x.context.Written ∨ out = (s.coordinator, x))
include hok hfits hmove hwritten

/-- Only a transaction that holds the lock of a key changes its version. -/
theorem Ok.current_eq_of_locked (hx : s.sessions.get? x.txId = some x) {k j : String} (hj : j ≠ x.txId)
    (hlock : s.coordinator.keyLocks.get? k = some j) :
    out.1.keyVersions.current k = s.coordinator.keyVersions.current k := by
  by_cases hidle : out = (s.coordinator, x)
  · rw [hidle]
  refine hmove.current_eq fun hphase op hop hkey => hj ?_
  rw [hfits.operations_eq hphase] at hop
  have hheld := (hok.sessions _ x hx).holds hphase _ ((hwritten hphase).resolve_right hidle op hop)
  rw [hkey, hlock] at hheld
  exact Option.some.inj hheld

/-- A record that is committed was committed before, or its operations have been applied now. -/
theorem Ok.committed_cases (hpresent : s.coordinator.stateMachine.isSome)
    (htx : s.coordinator.activeTxs.get? x.txId = some tx) {j : String} {tx' : TxRecord}
    (htx' : out.1.activeTxs.get? j = some tx') (hcommitted : tx'.status = .committed) :
    s.coordinator.activeTxs.get? j = some tx' ∨ j = x.txId ∧ x.phase = .apply ∧ x.context.Written ∧
      tx'.operations = x.context.operations ∧
      ∀ op ∈ x.context.operations, s.coordinator.keyVersions.current op.key < out.1.keyVersions.current op.key := by
  by_cases hj : j = x.txId
  · subst hj
    rcases hmove.committed htx hfits htx' hcommitted with rfl | ⟨hphase, hsame, hbumped⟩
    · exact Or.inl htx
    · rcases hwritten hphase with hwritten | hidle
      · rw [hfits.operations_eq hphase] at hsame hbumped
        exact Or.inr ⟨rfl, hphase, hwritten, hsame, hbumped hpresent⟩
      · rw [hidle] at htx'
        exact Or.inl htx'
  · rw [(hmove.spares fun k holder => hok.holder_ne).records j hj] at htx'
    exact Or.inl htx'

theorem Fenced.moves (hx : s.sessions.get? x.txId = some x) (hpresent : s.coordinator.stateMachine.isSome)
    (htx : s.coordinator.activeTxs.get? x.txId = some tx) (h : s.Fenced) :
    Fenced ⟨out.1, s.sessions.insert x.txId out.2⟩ := by
  have hspares := hmove.spares fun k holder => hok.holder_ne
  have hrecord {j tx'} (htx' : out.1.activeTxs.get? j = some tx') :=
    hok.committed_cases hfits hmove hwritten hpresent htx htx'
  refine ⟨?_, ?_, ?_⟩
  · intro j y hy hphase hywritten op hop v hv
    rw [Dict.get?_insert] at hy
    split_ifs at hy with hj
    · cases hy
      rcases hmove.granted_of_apply hfits hphase with rfl | ⟨hcontext, hversions, -, hcurrent⟩
      · exact h.current _ x hx hphase hywritten op hop v hv
      · rw [hcontext] at hop
        change out.1.keyVersions.current op.key = v
        rw [hversions]
        exact hcurrent op hop v hv
    · have hlock := (hok.sessions j y hy).holds hphase _ (hywritten op hop)
      exact (hok.current_eq_of_locked hfits hmove hwritten hx hj hlock).trans (h.current j y hy hphase hywritten op hop v hv)
  · intro j tx' htx' hcommitted op hop v hv
    rcases hrecord htx' hcommitted with hold | ⟨-, hphase, hxwritten, hsame, hbumped⟩
    · exact lt_of_lt_of_le (h.surpassed j tx' hold hcommitted op hop v hv) (hspares.versions op.key)
    · rw [hsame] at hop
      rw [← h.current _ x hx hphase hxwritten op hop v hv]
      exact hbumped op hop
  · intro i j tx₁ tx₂ hne htx₁ htx₂ hcommitted₁ hcommitted₂ k v hnames₁ hnames₂
    rcases hrecord htx₁ hcommitted₁ with hold₁ | ⟨hi, hphase, hxwritten, hsame, -⟩
    · rcases hrecord htx₂ hcommitted₂ with hold₂ | ⟨-, hphase, hxwritten, hsame, -⟩
      · exact h.exclusive i j tx₁ tx₂ hne hold₁ hold₂ hcommitted₁ hcommitted₂ k v hnames₁ hnames₂
      · rw [hsame] at hnames₂
        exact h.not_both hx hphase hxwritten hold₁ hcommitted₁ hnames₂ hnames₁
    · rw [hsame] at hnames₁
      rcases hrecord htx₂ hcommitted₂ with hold₂ | ⟨hj, -⟩
      · exact h.not_both hx hphase hxwritten hold₂ hcommitted₂ hnames₁ hnames₂
      · exact hne (hi.trans hj.symm)

end moves

theorem Fenced.step (h : s.Fenced) (hok : s.Ok) (hpresent : s.coordinator.stateMachine.isSome)
    (hwritten : s.AppliesWritten ev) : (s.step objects ev).Fenced := by
  have hmove := stepMove objects hok ev
  generalize s.step objects ev = s' at hmove
  cases hmove with
  | same => exact h
  | begins uuid isolationLevel timeoutSeconds now fresh =>
    have hrecord : ∀ {j tx},
        (s.coordinator.beginTransaction uuid isolationLevel timeoutSeconds now).1.activeTxs.get? j = some tx →
        tx.status = .committed → s.coordinator.activeTxs.get? j = some tx := by
      intro j tx htx hcommitted
      by_cases hj : j = "tx_" ++ uuid
      · subst hj
        obtain rfl := Option.some.inj ((Dict.get?_insert_self ..).symm.trans htx)
        cases hcommitted
      · exact (get?_insert_of_ne hj).symm.trans htx
    refine ⟨fun j y hy hphase => ?_, fun j tx htx hcommitted => h.surpassed j tx (hrecord htx hcommitted) hcommitted,
      fun i j tx₁ tx₂ hne htx₁ htx₂ hcommitted₁ hcommitted₂ => h.exclusive i j tx₁ tx₂ hne
        (hrecord htx₁ hcommitted₁) (hrecord htx₂ hcommitted₂) hcommitted₁ hcommitted₂⟩
    rw [Dict.get?_insert] at hy
    split_ifs at hy with hj
    · cases hy
      cases hphase
    · exact h.current j y hy hphase
  | moves x tx out session record fits move applied =>
    have happlied : x.phase = .apply → x.context.Written ∨ out = (s.coordinator, x) := fun hphase =>
      (applied hphase).imp_left fun happlies => hwritten _ happlies x session
    exact h.moves hok fits move happlied session hpresent record

/-- The version check can rely on the locks. -/
def Guarded (s : TxSystem) : Prop := s.Ok ∧ s.coordinator.stateMachine.isSome ∧ s.Fenced

theorem Guarded.step (h : s.Guarded) (hwritten : s.AppliesWritten ev) : (s.step objects ev).Guarded := by
  obtain ⟨hok, hpresent, hfenced⟩ := h
  obtain ⟨id, hspares⟩ := spares_step objects hok ev
  exact ⟨hok.step ev, hspares.present.trans hpresent, hfenced.step hok hpresent hwritten⟩

theorem guarded_init (nodeId : String) (sm : ReplicatedStateMachine) : (init nodeId (some sm)).Guarded := by
  refine ⟨ok_init nodeId (some sm), rfl, ?_⟩
  constructor
  · intro id x hx
    cases hx
  · intro id tx htx
    cases htx
  · intro i j tx tx' hne htx
    cases htx

theorem Ok.appliesWritten (h : s.Ok) (hunraised : s.AppliesUnraised ev) : s.AppliesWritten ev :=
  fun id happlies x hx => (h.sessions id x hx).written (hunraised id happlies x hx)

/-- When the operations of a transaction are applied, every version they expect is the current one. -/
def AppliesCurrent (s : TxSystem) (ev : TxEvent) : Prop :=
  ∀ id tx, s.applies ev = some id → s.coordinator.activeTxs.get? id = some tx →
    ∀ op ∈ tx.operations, ∀ v, op.expectedVersion = some v → s.coordinator.keyVersions.current op.key = v

theorem Guarded.appliesCurrent (h : s.Guarded) (hwritten : s.AppliesWritten ev) : s.AppliesCurrent ev := by
  obtain ⟨hok, -, hfenced⟩ := h
  intro id tx happlies htx op hop v hv
  obtain ⟨x, tx', hx, hphase, htx', hfits, -⟩ := hok.applied .values happlies
  cases htx.symm.trans htx'
  rw [hfits.operations_eq hphase] at hop
  exact hfenced.current id x hx hphase (hwritten id happlies x hx) op hop v hv

/-- **The first committer wins**, if no increment raises in a transaction that is applied. Operations are
applied only while every version they expect is the current one, so two transactions that name a key with
the same expected version do not both commit; and versions never decrease. -/
theorem first_committer_wins (objects : PyObjects) (nodeId : String) (sm : ReplicatedStateMachine)
    (events : List TxEvent) (h : Along (step objects) AppliesUnraised (init nodeId (some sm)) events) :
    Along (step objects) AppliesCurrent (init nodeId (some sm)) events ∧
    (∀ i j tx tx', i ≠ j → (after objects nodeId (some sm) events).coordinator.activeTxs.get? i = some tx →
      (after objects nodeId (some sm) events).coordinator.activeTxs.get? j = some tx' →
      ∀ k v, Names k v tx.operations → Names k v tx'.operations →
        ¬ (tx.status = .committed ∧ tx'.status = .committed)) ∧
    ∀ more k, (after objects nodeId (some sm) events).coordinator.keyVersions.current k ≤
      (after objects nodeId (some sm) (events ++ more)).coordinator.keyVersions.current k := by
  have hstep : ∀ (s : TxSystem) (ev : TxEvent), s.Guarded → s.AppliesUnraised ev →
      s.AppliesCurrent ev ∧ (s.step objects ev).Guarded := by
    intro s ev hs hev
    have hwritten := hs.1.appliesWritten hev
    exact ⟨hs.appliesCurrent hwritten, hs.step hwritten⟩
  have hinit := guarded_init nodeId sm
  refine ⟨h.of_invariant hstep hinit, ?_, fun more k => ?_⟩
  · rintro i j tx tx' hne htx htx' k v hnames hnames' ⟨hstatus, hstatus'⟩
    obtain ⟨-, -, hfenced⟩ := h.invariant (I := Guarded) (fun s ev hs hev => (hstep s ev hs hev).2) hinit
    exact hfenced.exclusive i j tx tx' hne htx htx' hstatus hstatus' k v hnames hnames'
  · have hmore : after objects nodeId (some sm) (events ++ more) =
        run (step objects) (after objects nodeId (some sm) events) more := run_append _ _ _ _
    rw [hmore]
    exact current_le_run (ok_after nodeId (some sm) events) more k

def begins (uuid : String) : TxEvent := .begin uuid .serializable 10 0

def getEvents (id key : String) : List TxEvent :=
  [.act id (.call (.get key)), .act id .fetch, .act id .answer]

/-- A commit up to its apply section. -/
def prepareEvents (id : String) : List TxEvent := [.act id .commit, .act id (.proceed 1), .act id (.proceed 1)]

def commitEvents (id : String) : List TxEvent := prepareEvents id ++ [.act id (.proceed 1)]

/-- Two transactions expect the first version of `x`; the second one to be prepared is refused. -/
def contested : List TxEvent :=
  [begins "a", begins "b", .act "tx_a" (.call (.set "x" (.int 1) (some 0))),
    .act "tx_b" (.call (.increment "x" 1 (some 0)))] ++ prepareEvents "tx_a" ++ commitEvents "tx_b" ++
    [.act "tx_a" (.proceed 1)]

theorem first_committer_wins_contested :
    let s := after .values "n" (some .empty) contested
    Along (step .values) AppliesCurrent (init "n" (some .empty)) contested ∧ s.committed "tx_a" = true ∧
      (s.sessions.get? "tx_b").map Session.phase = some (.returned .commit (.ok false)) := by
  intro s
  exact ⟨(first_committer_wins .values "n" .empty contested (by decide +kernel)).1, by decide +kernel,
    by decide +kernel⟩

/-- `tx_a` increments the infinity that it has read from `x`: the call raises, and leaves an operation
whose key is not in the write set, so it is not locked. `tx_b` overwrites `x` before that is applied. -/
def outrun : List TxEvent :=
  [begins "z", .act "tx_z" (.call (.set "x" PyObjects.someObject none))] ++ commitEvents "tx_z" ++
    [begins "a", begins "b"] ++
    getEvents "tx_a" "x" ++ [.act "tx_a" (.call (.increment "x" 1 (some 1))),
      .act "tx_b" (.call (.set "x" (.int 5) (some 1)))] ++
    prepareEvents "tx_a" ++ commitEvents "tx_b" ++ [.act "tx_a" (.proceed 1)]

theorem outrun_both_commit :
    let s := after .infinity "n" (some .empty) outrun
    ∀ id ∈ ["tx_a", "tx_b"], s.committed id = true ∧
      (s.coordinator.activeTxs.get? id).any (fun tx => Names "x" 1 tx.operations) = true := by
  decide +kernel

/-! ### Locks, and what becomes of a transaction -/

/-- The last call of the client has returned or raised. -/
def Ended (s : TxSystem) (id : String) : Prop :=
  ∃ x call answer, s.sessions.get? id = some x ∧ x.phase = .returned call answer

theorem Ended.step (hended : s.Ended id) (h : s.Ok) (ev : TxEvent) : (s.step objects ev).Ended id := by
  have hmove := stepMove objects h ev
  generalize s.step objects ev = s' at hmove
  cases hmove with
  | same => exact hended
  | begins uuid isolationLevel timeoutSeconds now fresh =>
    obtain ⟨x, call, answer, hx, hphase⟩ := hended
    obtain ⟨tx, htx, -⟩ := (h.sessions id x hx).recorded
    refine ⟨x, call, answer, ?_, hphase⟩
    rw [Dict.get?_insert, if_neg, hx]
    rintro rfl
    cases fresh.symm.trans htx
  | moves y tx out session record fits move applied =>
    obtain ⟨x, call, answer, hx, hphase⟩ := hended
    rw [Ended, Dict.get?_insert]
    split_ifs with hid
    · subst hid
      cases session.symm.trans hx
      rcases move.of_returned hphase with rfl | ⟨-, rfl⟩
      · exact ⟨_, call, answer, rfl, hphase⟩
      · exact ⟨_, _, _, rfl, rfl⟩
    · exact ⟨x, call, answer, hx, hphase⟩

theorem Ended.not_mem_appliedAlong (hended : s.Ended id) (h : s.Ok) (events : List TxEvent) :
    id ∉ s.appliedAlong objects events := by
  induction events generalizing s with
  | nil => exact List.not_mem_nil
  | cons ev events ih =>
    rw [appliedAlong, List.mem_append, not_or]
    refine ⟨fun hmem => ?_, ih (hended.step h ev) (h.step ev)⟩
    obtain ⟨x, call, answer, hx, hphase⟩ := hended
    obtain ⟨y, tx, hy, happly, -⟩ := h.applied objects (Option.mem_toList.mp hmem)
    cases hx.symm.trans hy
    cases hphase.symm.trans happly

theorem nodup_appliedAlong (h : s.Ok) (events : List TxEvent) : (s.appliedAlong objects events).Nodup := by
  induction events generalizing s with
  | nil => exact List.nodup_nil
  | cons ev events ih =>
    rw [appliedAlong]
    cases happlies : s.applies ev with
    | none => exact ih (h.step ev)
    | some id =>
      obtain ⟨x, tx, -, -, -, -, answer, hreturned⟩ := h.applied objects happlies
      have hended : (s.step objects ev).Ended id := ⟨_, _, answer, hreturned, rfl⟩
      exact List.nodup_cons.mpr ⟨hended.not_mem_appliedAlong (h.step ev) events, ih (h.step ev)⟩

theorem store_step (h : s.Ok) (hnone : s.applies ev = none) :
    (s.step objects ev).coordinator.stateMachine = s.coordinator.stateMachine ∧
      (s.step objects ev).coordinator.keyVersions = s.coordinator.keyVersions := by
  have hmove := stepMove objects h ev
  generalize s.step objects ev = s' at hmove
  cases hmove with
  | same | begins => exact ⟨rfl, rfl⟩
  | moves x tx out session record fits move applied =>
    by_cases hphase : x.phase = .apply
    · rcases applied hphase with happlies | hout
      · cases hnone.symm.trans happlies
      · rw [hout]
        exact ⟨rfl, rfl⟩
    · exact move.store_eq hphase

/-- The commit of the client has raised; a rollback after that has returned `False`. -/
def commitRaised (x : Session) : Bool :=
  match x.phase with
  | .returned .commit (.error _) | .returned .rollback (.ok false) => true
  | _ => false

/-- **The lock table and the life of a transaction**, in every state that a run reaches. A transaction that
has ended holds no lock, unless its commit has raised. -/
theorem lock_table_invariant (objects : PyObjects) (nodeId : String) (stateMachine : Option ReplicatedStateMachine)
    (events : List TxEvent) :
    (∀ k id, (after objects nodeId stateMachine events).coordinator.keyLocks.get? k = some id →
      ∃ tx, (after objects nodeId stateMachine events).coordinator.activeTxs.get? id = some tx ∧
        tx.status = .prepared ∧ k ∈ tx.writeSet.keys) ∧
    -- operations are applied once at most, not after a rollback, and nothing else changes the store
    ((init nodeId stateMachine).appliedAlong objects events).Nodup ∧
    (∀ id tx more, (after objects nodeId stateMachine events).coordinator.activeTxs.get? id = some tx →
      tx.status = .aborted → id ∉ (after objects nodeId stateMachine events).appliedAlong objects more) ∧
    (∀ ev, (after objects nodeId stateMachine events).applies ev = none →
      (after objects nodeId stateMachine (events ++ [ev])).coordinator.stateMachine =
        (after objects nodeId stateMachine events).coordinator.stateMachine) ∧
    (∀ id x call answer, (after objects nodeId stateMachine events).sessions.get? id = some x →
      x.phase = .returned call answer → commitRaised x = false →
      ∀ k, (after objects nodeId stateMachine events).coordinator.keyLocks.get? k ≠ some id) ∧
    (after objects nodeId stateMachine events).coordinator.totalCommitted +
        (after objects nodeId stateMachine events).coordinator.totalAborted =
      (after objects nodeId stateMachine events).coordinator.activeTxs.values.countP
        (fun tx => tx.status = .committed ∨ tx.status = .aborted) := by
  have hok : (after objects nodeId stateMachine events).Ok := ok_after nodeId stateMachine events
  refine ⟨fun k id => hok.locked id k, nodup_appliedAlong (ok_init nodeId stateMachine) events, ?_, ?_, ?_, hok.totals⟩
  · intro id tx more htx haborted
    obtain ⟨x, hx⟩ := hok.known id tx htx
    obtain ⟨tx', htx', hfits⟩ := (hok.sessions id x hx).recorded
    cases htx.symm.trans htx'
    obtain ⟨call, answer, hphase⟩ := hfits.returned (by simp [TxRecord.settled, haborted])
    exact Ended.not_mem_appliedAlong ⟨x, call, answer, hx, hphase⟩ hok more
  · intro ev hnone
    have hstep : after objects nodeId stateMachine (events ++ [ev]) =
        (after objects nodeId stateMachine events).step objects ev := run_append _ _ _ _
    rw [hstep]
    exact (store_step hok hnone).1
  · intro id x call answer hx hphase hreturns k hk
    obtain ⟨tx, htx, hprepared, -⟩ := hok.locked id k hk
    obtain ⟨tx', htx', hfits⟩ := (hok.sessions id x hx).recorded
    cases htx.symm.trans htx'
    rw [Session.Fits, hphase] at hfits
    rw [commitRaised, hphase] at hreturns
    rcases call with _ | _ <;> rcases answer with e | _ | _ <;> simp_all

/-- A transaction sets `y` and increments the infinity that is in `x`. -/
def stuck : List TxEvent :=
  [begins "z", .act "tx_z" (.call (.set "x" PyObjects.someObject none))] ++ commitEvents "tx_z" ++
    [begins "a", .act "tx_a" (.call (.set "y" (.int 1) none)), .act "tx_a" (.call (.increment "x" 1 none))] ++
    commitEvents "tx_a"

/-- Its commit raises, a rollback is in vain, and `y` stays locked. -/
theorem stuck_keeps_lock :
    let raised := after .infinity "n" (some .empty) stuck
    let s := raised.step .infinity (.act "tx_a" (.rollback none))
    (raised.sessions.get? "tx_a").map Session.phase =
        some (.returned .commit (.error (.overflowError "cannot convert float infinity to integer"))) ∧
      raised.coordinator.keyLocks.get? "y" = some "tx_a" ∧
      (s.sessions.get? "tx_a").map Session.phase = some (.returned .rollback (.ok false)) ∧
      s.coordinator.keyLocks.get? "y" = some "tx_a" := by
  decide +kernel

end TxSystem

end MeshWeaver
