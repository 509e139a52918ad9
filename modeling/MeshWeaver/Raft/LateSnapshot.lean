import MeshWeaver.Lib.Run
import MeshWeaver.Raft.Inputs
import MeshWeaver.Raft.StateMachineFacts

/-!
# Late and repeated snapshots

`handle_install_snapshot_request` installs whatever snapshot has a term that is not stale. It does no harm exactly when
the snapshot reaches as far as the follower has applied (`late_snapshot_harmless_iff`): an older one takes back commands
that are still counted as applied (`late_snapshot_forgets`).
-/

namespace MeshWeaver

open Lib

namespace RaftLog

variable {log : RaftLog}

/-- A contiguous log that has been compacted within its applied part. -/
structure Ordered (log : RaftLog) : Prop where
  contiguous : log.Contiguous
  nonneg : 0 ≤ log.snapshotLastIndex
  le_applied : log.snapshotLastIndex ≤ log.lastApplied

theorem Ordered.empty : RaftLog.empty.Ordered := ⟨contiguous_empty, le_rfl, le_rfl⟩

theorem Contiguous.append (h : log.Contiguous) {e : LogEntry} (he : e.index = log.lastIndex + 1) :
    ({ log with entries := log.entries ++ [e] } : RaftLog).Contiguous := by
  refine ContiguousFrom.append h (ContiguousFrom.singleton ?_)
  rw [he, lastIndex_eq h]
  dsimp only
  omega

theorem Ordered.append (h : log.Ordered) {e : LogEntry} (he : e.index = log.lastIndex + 1) :
    ({ log with entries := log.entries ++ [e] } : RaftLog).Ordered :=
  ⟨h.contiguous.append he, h.nonneg, h.le_applied⟩

theorem Ordered.reconcile (h : log.Ordered) (prev prevTerm : Int) (new : List LogEntry) :
    (log.reconcileFollowerEntries prev prevTerm new).1.Ordered := by
  have hloop : (reconcileLoop new log).1.Ordered := by
    apply reconcileLoop_invariant (fun _ h => h.contiguous) (fun _ _ _ _ h he _ => h.append he) ?_ log h
    exact fun log _ _ k _ h _ _ _ => ⟨h.contiguous.take k, h.nonneg, h.le_applied⟩
  rw [reconcileFollowerEntries_fst]
  split_ifs
  · exact hloop
  · exact h

section

variable (h : log.Contiguous)
include h

theorem filter_index_gt {i : Int} (hi : log.snapshotLastIndex ≤ i) :
    log.entries.filter (fun e => e.index > i) = log.entries.drop (i - log.snapshotLastIndex).toNat := by
  rw [← ContiguousFrom.filter_gt h]
  congr 1
  funext e
  congr 2
  omega

theorem Contiguous.drop {log' : RaftLog} (n : Nat)
    (hsnap : log'.snapshotLastIndex = log.snapshotLastIndex + n) (hentries : log'.entries = log.entries.drop n) :
    log'.Contiguous := by
  rw [Contiguous, hsnap, hentries, add_right_comm]
  exact ContiguousFrom.drop h n

theorem Contiguous.restore {i : Int} (hi : log.snapshotLastIndex ≤ i) (term : Int) :
    (log.restoreSnapshot i term).Contiguous := by
  refine h.drop (i - log.snapshotLastIndex).toNat ?_ (filter_index_gt h hi)
  dsimp only [restoreSnapshot]
  omega

/-- **What compaction does** to a contiguous log: nothing, or it moves the marker up to a stored and
applied entry. -/
theorem compactLogBefore_cases (i : Int) :
    (log.compactLogBefore i).1 = log ∨
      ∃ (k : Nat) (e : LogEntry), log.entries[k]? = some e ∧
        log.snapshotLastIndex + 1 + k ≤ log.lastApplied ∧
        (log.compactLogBefore i).1 = { log with
          snapshotLastIndex := log.snapshotLastIndex + 1 + k
          snapshotLastTerm := e.term
          entries := log.entries.drop (k + 1) } := by
  unfold compactLogBefore
  split_ifs with hi
  · exact Or.inl rfl
  dsimp only
  cases hget : log.getEntry (min i log.lastApplied) with
  | none => exact Or.inl rfl
  | some e =>
    right
    have hlt : log.snapshotLastIndex < min i log.lastApplied := by
      by_contra hle
      rw [getEntry_of_le (by omega)] at hget
      simp at hget
    obtain ⟨k, hk⟩ := exists_offset hlt
    have hidx := getEntry_index h hget
    rw [hk, getEntry_add] at hget
    refine ⟨k, e, hget, by omega, ?_⟩
    dsimp only
    rw [hidx, hk, filter_index_gt h (by omega),
      show (log.snapshotLastIndex + 1 + k - log.snapshotLastIndex).toNat = k + 1 by omega]

end

theorem compactLogBefore_kept (log : RaftLog) (i : Int) :
    (log.compactLogBefore i).1.lastApplied = log.lastApplied ∧
      (log.compactLogBefore i).1.commitIndex = log.commitIndex := by
  unfold compactLogBefore
  split_ifs
  · exact ⟨rfl, rfl⟩
  · dsimp only
    split <;> exact ⟨rfl, rfl⟩

theorem Ordered.compact (h : log.Ordered) (i : Int) : (log.compactLogBefore i).1.Ordered := by
  rcases compactLogBefore_cases h.contiguous i with heq | ⟨k, e, -, hle, heq⟩
  · rwa [heq]
  · rw [heq]
    refine ⟨h.contiguous.drop (k + 1) ?_ rfl, by have := h.nonneg; dsimp only; omega, hle⟩
    push_cast
    omega

theorem Ordered.restore (h : log.Ordered) {i : Int} (hi : log.lastApplied ≤ i) (term : Int) :
    (log.restoreSnapshot i term).Ordered := by
  have hnonneg := h.nonneg
  have hle := h.le_applied
  exact ⟨h.contiguous.restore (by omega) term, by dsimp only [restoreSnapshot]; omega,
    by dsimp only [restoreSnapshot]; omega⟩

end RaftLog

namespace RaftReplicationEngine

variable {eng : Engine}

/-! ### Contiguity in every run -/

theorem ordered_applyOne {clock : Clock} {entry : LogEntry} (h : eng.log.Ordered)
    (hle : eng.log.snapshotLastIndex ≤ eng.log.commitIndex) : (applyOne clock entry eng).1.log.Ordered := by
  obtain ⟨sm, out, -, -, -, -, -, -, hlog⟩ := applyOne_eq clock entry eng
  rw [hlog]
  cases out with
  | error e => exact h
  | ok res =>
    unfold RaftLog.markApplied
    split_ifs with hlt
    · refine ⟨h.contiguous, h.nonneg, ?_⟩
      have := h.le_applied
      dsimp only
      omega
    · exact h

theorem ordered_commitTo (h : eng.log.Ordered) (clock : Clock) (i : Int) : (commitTo clock i eng).1.log.Ordered := by
  have h₁ : (eng.log.advanceCommitIndex i).Ordered := by
    rw [RaftLog.advanceCommitIndex_eq]
    exact ⟨h.contiguous, h.nonneg, h.le_applied⟩
  rw [commitTo, applyCommittedEntries]
  by_cases hdone : (eng.log.advanceCommitIndex i).commitIndex ≤
      (eng.log.advanceCommitIndex i).lastApplied
  · rwa [RaftLog.getUnappliedEntries, if_pos hdone]
  · have hle := h₁.le_applied
    refine (applyLoop_invariant (P := fun eng : Engine => eng.log.Ordered ∧
      eng.log.snapshotLastIndex ≤ eng.log.commitIndex) ?_ ⟨h₁, by dsimp only; omega⟩).1
    rintro eng₁ entry - ⟨hord, hcommit⟩
    have hkept := applyOne_kept clock entry eng₁
    refine ⟨ordered_applyOne hord hcommit, ?_⟩
    rwa [hkept.snapshotLastIndex, hkept.commitIndex]

/-- A snapshot that is accepted reaches as far as the node has applied. -/
def KeepsApplied (eng : Engine) (ev : NodeEvent) : Prop :=
  ∀ p ∈ ev.snapshot?, p.1 ≤ p.2.term → eng.log.lastApplied ≤ p.2.lastIncludedIndex
deriving Decidable

theorem ordered_step (h : eng.log.Ordered) {ev : NodeEvent} (hok : KeepsApplied eng ev) :
    (nodeStep eng ev).log.Ordered := by
  cases ev with
  | commit i clock => exact ordered_commitTo h clock i
  | handle view peers input =>
    refine act_invariant (P := fun eng : Engine => eng.log.Ordered) (fun hsame h => hsame.log ▸ h)
      (fun eng clock i h => ordered_commitTo h clock i) h ?_ ?_ ?_ ?_
    · rintro command now clock -
      exact h.append rfl
    · rintro i now -
      exact h.compact _
    · rintro pkt now clock req - - -
      exact h.reconcile _ _ _
    · rintro pkt now clock req rfl hpay hterm
      obtain ⟨src, dst, senderId, payload⟩ := pkt
      subst hpay
      exact h.restore (hok (view.term, req) rfl hterm) _

/-- **The log stays contiguous** in every run whose snapshots reach as far as has been applied. -/
theorem ordered_run (nodeId : String) {evs : List NodeEvent} (hrun : Along nodeStep KeepsApplied (init nodeId) evs) :
    (run nodeStep (init nodeId) evs).log.Ordered :=
  Along.invariant (I := fun eng : Engine => eng.log.Ordered) (fun _ _ h hok => ordered_step h hok)
    RaftLog.Ordered.empty hrun

/-! ### Installing a snapshot -/

/-- The state machine after the commands with indexes `1` to `n`; `clock i` holds what `time.time()`
returns while command `i` is applied. -/
def stateAfter (command : Nat → LogEntry) (clock : Nat → Clock) : Nat → ReplicatedStateMachine
  | 0 => .empty
  | n + 1 => ((stateAfter command clock n).applyCommand (clock (n + 1)) (command (n + 1))).1

theorem stateAfter_injective (command : Nat → LogEntry) (clock : Nat → Clock) :
    Function.Injective (stateAfter command clock) := by
  have hmono : StrictMono fun n => (stateAfter command clock n).commandsApplied :=
    strictMono_nat_of_lt_succ fun n => ReplicatedStateMachine.lt_applyWithin_commandsApplied ..
  intro m n hmn
  exact hmono.injective (congrArg ReplicatedStateMachine.commandsApplied hmn)

/-- **A snapshot does no harm**: no index is lowered, the stored entries stay contiguous, the state
machine is the fold of the commands up to `last_applied`, and a snapshot that is behind changes
nothing. -/
structure Harmless (state : Nat → ReplicatedStateMachine) (lastIncludedIndex : Int)
    (eng eng' : Engine) : Prop where
  snapshotLastIndex : eng.log.snapshotLastIndex ≤ eng'.log.snapshotLastIndex
  commitIndex : eng.log.commitIndex ≤ eng'.log.commitIndex
  lastApplied : eng.log.lastApplied ≤ eng'.log.lastApplied
  contiguous : eng'.log.Contiguous
  getEntry : ∀ i e, eng'.log.getEntry i = some e → e.index = i
  machine : eng'.stateMachine = state eng'.log.lastApplied.toNat
  behind : lastIncludedIndex < eng.log.snapshotLastIndex ∨ lastIncludedIndex < eng.log.lastApplied →
    eng'.log = eng.log ∧ eng'.stateMachine = eng.stateMachine

/-- **When a snapshot does no harm**: in a state reached by a run whose snapshots all reached as far
as had been applied, a snapshot that is not stale and holds the state after the commands up to its
index does no harm exactly when it reaches as far as has been applied. -/
theorem late_snapshot_harmless_iff (nodeId : String) (evs : List NodeEvent)
    (hrun : Along nodeStep KeepsApplied (init nodeId) evs) (command : Nat → LogEntry)
    (clock : Nat → Clock) (term : Int) (req : InstallSnapshotRequest) (hterm : term ≤ req.term)
    (hdata : .importState req.data = stateAfter command clock req.lastIncludedIndex.toNat) :
    Harmless (stateAfter command clock) req.lastIncludedIndex (run nodeStep (init nodeId) evs)
        ((run nodeStep (init nodeId) evs).handleInstallSnapshotRequest term req).1 ↔
      (run nodeStep (init nodeId) evs).log.lastApplied ≤ req.lastIncludedIndex := by
  have hord := ordered_run nodeId hrun
  generalize run nodeStep (init nodeId) evs = eng at hord ⊢
  have hsnap := hord.le_applied
  have hnonneg := hord.nonneg
  rw [handleInstallSnapshotRequest_eq hterm]
  constructor
  · intro h
    by_contra hlt
    -- the machine would be the one after `last_included_index` and after `last_applied` commands
    have hmachine : (eng.installed req).stateMachine = _ := h.machine
    have hlast : (eng.installed req).log.lastApplied = eng.log.lastApplied :=
      max_eq_left (by omega)
    have hidx := stateAfter_injective command clock (hdata.symm.trans hmachine)
    rw [hlast] at hidx
    have hmarker : eng.log.snapshotLastIndex ≤ req.lastIncludedIndex := h.snapshotLastIndex
    omega
  · intro hle
    have hord' := hord.restore hle req.lastIncludedTerm
    have hlast : (eng.installed req).log.lastApplied = req.lastIncludedIndex := max_eq_right hle
    refine ⟨hsnap.trans hle, le_max_left _ _, le_max_left _ _, hord'.contiguous,
      fun i e he => RaftLog.getEntry_index hord'.contiguous he, ?_, fun hbehind => ?_⟩
    · rwa [hlast]
    · omega

def counting (n : Nat) : LogEntry := { writeEntry n 1 "x" with commandType := .increment }

def countTwo : NodeEvent :=
  .handle ⟨1, .follower⟩ []
    (.receive ⟨⟨"a", 7000⟩, ⟨"b", 7000⟩, "a", .appendEntriesRequest
      { term := 1, leaderId := "a", prevLogIndex := 0, prevLogTerm := 0,
        entries := [counting 1, counting 2], leaderCommit := 2 }⟩ 1 fun _ => 0)

def countSnapshot (n : Nat) : InstallSnapshotRequest :=
  { term := 1, leaderId := "a", lastIncludedIndex := n, lastIncludedTerm := 1,
    data := (stateAfter counting (fun _ _ => 0) n).exportState 0 }

theorem repeated_snapshot_harmless :
    Harmless (stateAfter counting fun _ _ => 0) 2 (run nodeStep (init "b") [countTwo])
      ((run nodeStep (init "b") [countTwo]).handleInstallSnapshotRequest 1 (countSnapshot 2)).1 :=
  (late_snapshot_harmless_iff "b" [countTwo] (by decide) counting (fun _ _ => 0) 1 (countSnapshot 2)
    (by decide) rfl).mpr (by decide)

/-- **A late snapshot takes commands back**: it holds the state after the first command, arrives
after the second has been applied, and leaves `last_applied` at 2 with the counter at 1. -/
theorem late_snapshot_forgets :
    .importState (countSnapshot 1).data = stateAfter counting (fun _ _ => 0) 1 ∧
      (run nodeStep (init "b") [countTwo]).stateMachine.get "x" = some (.int 2) ∧
      ((run nodeStep (init "b") [countTwo]).handleInstallSnapshotRequest 1
        (countSnapshot 1)).1.log.lastApplied = 2 ∧
      ((run nodeStep (init "b") [countTwo]).handleInstallSnapshotRequest 1
        (countSnapshot 1)).1.stateMachine.get "x" = some (.int 1) :=
  ⟨rfl, rfl, rfl, rfl⟩

end RaftReplicationEngine

end MeshWeaver
