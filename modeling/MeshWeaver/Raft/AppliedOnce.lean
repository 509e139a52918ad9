import MeshWeaver.Raft.LateSnapshot
import MeshWeaver.Raft.Replay

/-!
# Every index is applied once, in order

Whatever requests an engine is sent, the calls of `apply_command` that return are made for the indexes
`1, 2, …, last_applied`. A request may pull `commit_index` below `last_applied`, and compaction may put the marker above
`commit_index`. What stays true (`InOrder`) is that the marker is at most `last_applied` and `commit_index` at most the
last index, so that the next index to apply is always stored.
-/

namespace MeshWeaver

open Lib

theorem intRange_succ {a b : Int} (h : a ≤ b) : intRange a (b + 1) = intRange a b ++ [b] := by
  rw [intRange, intRange, show (b + 1 - a).toNat = (b - a).toNat + 1 by omega, List.range_succ,
    List.map_append, List.map_singleton]
  congr 2
  omega

namespace RaftReplicationEngine

variable {eng eng' : Engine} {clock : Clock}

def returnedIndexes (eng : Engine) : List Int :=
  (eng.applyCalls.filter fun call => call.outcome.isOk).map fun call => call.entry.index

theorem NoRaise.returnedIndexes (h : NoRaise eng) :
    eng.returnedIndexes = eng.applyCalls.map fun call => call.entry.index := by
  rw [RaftReplicationEngine.returnedIndexes, List.filter_eq_self.mpr]
  intro call hcall
  obtain ⟨v, hv⟩ := h call hcall
  rw [hv]
  rfl

/-- The next index to apply is stored, and the indexes up to `last_applied` have been applied. -/
structure InOrder (eng : Engine) : Prop where
  ordered : eng.log.Ordered
  commit_le : eng.log.commitIndex ≤ eng.log.snapshotLastIndex + eng.log.entries.length
  calls : eng.returnedIndexes = intRange 1 (eng.log.lastApplied + 1)

namespace InOrder

theorem init (nodeId : String) : InOrder (init nodeId) := ⟨.empty, le_rfl, rfl⟩

theorem of_sameCore (h : InOrder eng) (hsame : SameCore eng eng') : InOrder eng' := by
  obtain ⟨hordered, hcommit, hcalls⟩ := h
  refine ⟨hsame.log ▸ hordered, hsame.log ▸ hcommit, ?_⟩
  rwa [returnedIndexes, hsame.applyCalls, hsame.log]

theorem of_log (h : InOrder eng) {log : RaftLog} (hordered : log.Ordered)
    (hcommit : log.commitIndex ≤ log.snapshotLastIndex + log.entries.length)
    (hlast : log.lastApplied = eng.log.lastApplied) : InOrder { eng with log } := by
  refine ⟨hordered, hcommit, ?_⟩
  rw [hlast]
  exact h.calls

/-! ### Committing -/

theorem applyOne (h : InOrder eng) (clock : Clock) {entry : LogEntry}
    (hindex : entry.index = eng.log.lastApplied + 1) (hlt : eng.log.lastApplied < eng.log.commitIndex) :
    InOrder (applyOne clock entry eng).1 ∧
      ∀ res, (RaftReplicationEngine.applyOne clock entry eng).2 = .ok res →
        (RaftReplicationEngine.applyOne clock entry eng).1.log.lastApplied = eng.log.lastApplied + 1 := by
  obtain ⟨sm, out, -, -, hout, hcalls, -, -, hlog⟩ := applyOne_eq clock entry eng
  have hnonneg := h.ordered.nonneg
  have hmarker := h.ordered.le_applied
  rw [hout]
  cases out with
  | error e =>
    refine ⟨⟨by rw [hlog]; exact h.ordered, by rw [hlog]; exact h.commit_le, ?_⟩, by rintro res ⟨⟩⟩
    rw [hlog, ← h.calls, returnedIndexes, hcalls, List.filter_append]
    simp [returnedIndexes, Except.isOk, Except.toBool]
  | ok res =>
    have hmark : eng.log.markApplied entry.index =
        { eng.log with lastApplied := eng.log.lastApplied + 1 } := by
      rw [RaftLog.markApplied, hindex, if_pos (by omega), min_eq_left (by omega)]
    rw [hmark] at hlog
    refine ⟨⟨?_, ?_, ?_⟩, fun _ _ => by rw [hlog]⟩
    · rw [hlog]
      exact ⟨h.ordered.contiguous, hnonneg, hmarker.trans (Int.le_add_one le_rfl)⟩
    · rw [hlog]
      exact h.commit_le
    · rw [hlog, intRange_succ (by dsimp only; omega), ← h.calls, returnedIndexes, hcalls, List.filter_append]
      simp [returnedIndexes, Except.isOk, Except.toBool, hindex]

/-- **The loop** goes through consecutive indexes, from the first that is not applied. -/
theorem applyLoop (es : List LogEntry) : ∀ (results : List (Int × CommandResult)) (eng : Engine),
    InOrder eng → ContiguousFrom (eng.log.lastApplied + 1) es →
      eng.log.lastApplied + es.length ≤ eng.log.commitIndex → InOrder (applyLoop clock es results eng).1 := by
  induction es with
  | nil => exact fun results eng h _ _ => h
  | cons entry rest ih =>
    intro results eng h hes hle
    simp only [List.length_cons, Nat.cast_add, Nat.cast_one] at hle
    obtain ⟨hone, hlast⟩ := h.applyOne clock hes.head (by omega)
    have hkept := applyOne_kept clock entry eng
    rw [RaftReplicationEngine.applyLoop]
    rcases hres : RaftReplicationEngine.applyOne clock entry eng with ⟨eng₁, e | res⟩ <;>
      rw [hres] at hone hlast hkept
    · exact hone
    · have hnext := hlast res rfl
      dsimp only at hnext ⊢
      refine ih _ eng₁ hone ?_ ?_
      · rw [hnext]
        exact hes.tail
      · rw [hkept.commitIndex]
        omega

section

variable (h : InOrder eng)
include h

theorem commitTo (clock : Clock) (i : Int) : InOrder (commitTo clock i eng).1 := by
  have hlast := RaftLog.lastIndex_eq h.ordered.contiguous
  have hcommit := h.commit_le
  have h₁ : InOrder { eng with log := eng.log.advanceCommitIndex i } := by
    rw [RaftLog.advanceCommitIndex_eq]
    refine h.of_log ⟨h.ordered.contiguous, h.ordered.nonneg, h.ordered.le_applied⟩ ?_ rfl
    dsimp only
    omega
  rw [RaftReplicationEngine.commitTo, applyCommittedEntries]
  by_cases hdone : (eng.log.advanceCommitIndex i).commitIndex ≤
      (eng.log.advanceCommitIndex i).lastApplied
  · rwa [RaftLog.getUnappliedEntries, if_pos hdone]
  · have hmarker := h₁.ordered.le_applied
    have hend := h₁.commit_le
    dsimp only at hmarker hend ⊢
    rw [RaftLog.getUnappliedEntries_eq hmarker (by omega)]
    refine applyLoop _ [] _ h₁ ?_ ?_
    · convert (h₁.ordered.contiguous.take _).drop _ using 1
      dsimp only
      omega
    · rw [List.length_drop, List.length_take]
      dsimp only
      omega

/-! ### Requests and snapshots -/

theorem append {e : LogEntry} (he : e.index = eng.log.lastIndex + 1) : InOrder (eng.append e) := by
  have hcommit := h.commit_le
  refine h.of_log (h.ordered.append he) ?_ rfl
  simp only [List.length_append, List.length_singleton]
  omega

theorem reconciled (req : AppendEntriesRequest) : InOrder (eng.reconciled req) := by
  have hloop : InOrder { eng with log := (RaftLog.reconcileLoop req.entries eng.log).1 } := by
    refine RaftLog.reconcileLoop_invariant (P := fun log => InOrder { eng with log })
      (fun _ h => h.ordered.contiguous) ?_ ?_ eng.log h
    · exact fun log _ _ e h he _ => h.append he
    · -- the cut lowers the commit index with the last index, and leaves `last_applied` alone
      intro log e _ k f h _ hget _
      have hlt := (List.getElem?_eq_some_iff.mp hget).1
      refine of_log h ⟨h.ordered.contiguous.take k, h.ordered.nonneg, h.ordered.le_applied⟩ ?_ rfl
      simp only [List.length_take]
      omega
  rw [RaftReplicationEngine.reconciled, RaftLog.reconcileFollowerEntries_fst]
  split_ifs
  · exact hloop
  · exact h

theorem compacted (i : Int) : InOrder (eng.compacted i) := by
  have hcommit := h.commit_le
  have hordered := h.ordered.compact i
  rcases RaftLog.compactLogBefore_cases h.ordered.contiguous i with heq | ⟨k, e, hget, -, heq⟩
  · rwa [RaftReplicationEngine.compacted, heq]
  · rw [RaftReplicationEngine.compacted]
    rw [heq] at hordered ⊢
    refine h.of_log hordered ?_ rfl
    simp only [List.length_drop]
    omega

theorem step {ev : NodeEvent} (hsnapshot : ev.snapshot? = none) : InOrder (nodeStep eng ev) := by
  cases ev with
  | commit i clock => exact h.commitTo clock i
  | handle view peers input =>
    refine act_invariant (fun hsame h => h.of_sameCore hsame) (fun eng clock i h => h.commitTo clock i)
      h ?_ ?_ ?_ ?_
    · exact fun command now clock _ => h.append rfl
    · exact fun i now _ => h.compacted _
    · exact fun pkt now clock req _ _ _ => h.reconciled req
    · rintro ⟨src, dst, senderId, payload⟩ now clock req rfl rfl -
      cases hsnapshot

theorem after {evs : List NodeEvent} (hsnapshots : ∀ ev ∈ evs, ev.snapshot? = none) :
    InOrder (run nodeStep eng evs) := by
  induction evs generalizing eng with
  | nil => exact h
  | cons ev evs ih =>
    exact ih (h.step (hsnapshots ev List.mem_cons_self)) fun e he => hsnapshots e (List.mem_cons_of_mem _ he)

end

end InOrder

/-- **Every index is applied once, in order**: in every run without snapshots and without a command
that raises, `apply_command` has been called for the indexes `1, 2, …, last_applied`. -/
theorem applied_once (nodeId : String) (evs : List NodeEvent)
    (hsnapshots : ∀ ev ∈ evs, ev.snapshot? = none) (hno : NoRaise (run nodeStep (init nodeId) evs)) :
    (run nodeStep (init nodeId) evs).applyCalls.map (fun call => call.entry.index) =
      intRange 1 ((run nodeStep (init nodeId) evs).log.lastApplied + 1) := by
  rw [← hno.returnedIndexes]
  exact ((InOrder.init nodeId).after hsnapshots).calls

def recount : NodeEvent :=
  .handle ⟨2, .follower⟩ []
    (.receive ⟨⟨"a", 7000⟩, ⟨"b", 7000⟩, "a", .appendEntriesRequest
      { term := 2, leaderId := "a", prevLogIndex := 1, prevLogTerm := 1,
        entries := [{ counting 2 with term := 2 }, { counting 3 with term := 2 }], leaderCommit := 1 }⟩ 2
      fun _ => 0)

/-- The second command of term 1 stays applied, that of term 2 never is. -/
theorem applied_once_recount :
    (run nodeStep (init "b") [countTwo, recount, .handle ⟨2, .follower⟩ [] (.createSnapshot none 2),
      .commit 3 fun _ => 0]).applyCalls.map (fun call => call.entry.index) = [1, 2, 3] :=
  applied_once "b" _ (by simp [countTwo, recount, NodeEvent.snapshot?]) (by decide +kernel)

end RaftReplicationEngine

end MeshWeaver
