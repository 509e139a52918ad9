import MeshWeaver.Raft.LateSnapshot
import MeshWeaver.Raft.Replay

/-!
# Engines that follow one sequence of commands

A `Sequel` is what follows a snapshot: the state at its index and the entries after it. An engine `Tracks` it when its
log is a piece of the sequel, however far it has been compacted, and its state machine is the state after the entries up
to `last_applied`. Appending the next entry, compacting, reconciling and committing keep an engine on track.
-/

namespace MeshWeaver

open ReplicatedStateMachine (Stamped applyCommand_congr_clock)

/-- The machine after a command, unless it raises. -/
def applied? (sm : ReplicatedStateMachine) (entry : LogEntry) : Option ReplicatedStateMachine :=
  match sm.applyCommand (fun _ => 0) entry with
  | (sm', .ok _) => some sm'
  | (_, .error _) => none

theorem applied?_eq {entry : LogEntry} (h : Stamped entry) (clock : Clock)
    (sm : ReplicatedStateMachine) :
    applied? sm entry =
      match sm.applyCommand clock entry with
      | (sm', .ok _) => some sm'
      | (_, .error _) => none := by
  rw [applied?, applyCommand_congr_clock h (fun _ => 0) clock]

/-- **What follows a snapshot**: the index and the state it holds, and the entries after it, none of
which needs the clock. -/
structure Sequel where
  start : Int
  machine : ReplicatedStateMachine
  entries : List LogEntry
  nonneg : 0 ≤ start
  contiguous : ContiguousFrom (start + 1) entries
  stamped : ∀ e ∈ entries, Stamped e

namespace Sequel

variable {q q' : Sequel}

/-- The state after the entries up to index `n`, unless one of them raises. -/
def stateAt (q : Sequel) (n : Int) : Option ReplicatedStateMachine :=
  (q.entries.take (n - q.start).toNat).foldlM applied? q.machine

theorem stateAt_start (q : Sequel) : q.stateAt q.start = some q.machine := by
  simp [stateAt]

theorem stateAt_succ {n : Int} (hn : q.start ≤ n) {e : LogEntry} (he : q.entries[(n - q.start).toNat]? = some e) :
    q.stateAt (n + 1) = (q.stateAt n).bind fun sm => applied? sm e := by
  have hlen : (n + 1 - q.start).toNat = (n - q.start).toNat + 1 := by omega
  rw [stateAt, hlen, List.take_add_one, he, Option.toList_some, List.foldlM_append]
  simp only [List.foldlM_cons, List.foldlM_nil, bind_pure]
  rfl

theorem stateAt_eq_none_of_le {m n : Int} (hmn : m ≤ n) (h : q.stateAt m = none) : q.stateAt n = none := by
  obtain ⟨rest, hrest⟩ : q.entries.take (m - q.start).toNat <+: q.entries.take (n - q.start).toNat :=
    List.take_prefix_take_left (by omega)
  rw [stateAt, ← hrest, List.foldlM_append]
  unfold stateAt at h
  rw [h]
  rfl

theorem getElem?_of_mem {e : LogEntry} (h : e ∈ q.entries) :
    q.start < e.index ∧ q.entries[(e.index - q.start - 1).toNat]? = some e := by
  obtain ⟨k, hk⟩ := List.mem_iff_getElem?.mp h
  have hidx := q.contiguous k e hk
  exact ⟨by omega, by rw [← hk]; congr 1; omega⟩

def append (q : Sequel) (e : LogEntry) (hidx : e.index = q.start + 1 + q.entries.length)
    (hstamped : Stamped e) : Sequel :=
  { q with
    entries := q.entries ++ [e]
    contiguous := q.contiguous.append (.singleton hidx)
    stamped := by
      intro x hx
      rcases List.mem_append.mp hx with hx | hx
      · exact q.stamped x hx
      · rw [List.mem_singleton.mp hx]
        exact hstamped }

structure Extends (q q' : Sequel) : Prop where
  start : q'.start = q.start
  machine : q'.machine = q.machine
  entries : q.entries <+: q'.entries

theorem Extends.refl (q : Sequel) : Extends q q := ⟨rfl, rfl, List.prefix_rfl⟩

theorem Extends.length_le (h : Extends q q') : q.entries.length ≤ q'.entries.length :=
  h.entries.length_le

theorem Extends.stateAt (h : Extends q q') {n : Int} (hn : n ≤ q.start + q.entries.length) :
    q'.stateAt n = q.stateAt n := by
  obtain ⟨rest, hrest⟩ := h.entries
  rw [Sequel.stateAt, Sequel.stateAt, h.start, h.machine, ← hrest,
    List.take_append_of_le_length (by omega)]

end Sequel

/-! ### Logs on track -/

/-- The stored entries are a piece of the sequel, and the indexes are in order. -/
structure OnTrack (q : Sequel) (log : RaftLog) : Prop where
  start_le : q.start ≤ log.snapshotLastIndex
  marker_le : log.snapshotLastIndex ≤ log.lastApplied
  applied_le : log.lastApplied ≤ log.commitIndex
  commit_le : log.commitIndex ≤ log.snapshotLastIndex + log.entries.length
  within : log.snapshotLastIndex ≤ q.start + q.entries.length
  stored : log.entries <+: q.entries.drop (log.snapshotLastIndex - q.start).toNat

namespace OnTrack

variable {q q' : Sequel} {log : RaftLog}

section

variable (h : OnTrack q log)
include h

theorem contiguous : log.Contiguous := by
  refine ContiguousFrom.of_isPrefix ?_ h.stored
  have hstart := h.start_le
  convert q.contiguous.drop (log.snapshotLastIndex - q.start).toNat using 1
  omega

theorem lastIndex : log.lastIndex = log.snapshotLastIndex + log.entries.length := RaftLog.lastIndex_eq h.contiguous

theorem lastIndex_le : log.lastIndex ≤ q.start + q.entries.length := by
  have hlen := h.stored.length_le
  have hwithin := h.within
  rw [List.length_drop] at hlen
  rw [h.lastIndex]
  omega

theorem commit_le_end : log.commitIndex ≤ q.start + q.entries.length := by
  have hc := h.commit_le
  have hl := h.lastIndex_le
  rw [h.lastIndex] at hl
  omega

theorem getElem?_stored {k : Nat} {e : LogEntry} (he : log.entries[k]? = some e) :
    q.entries[(log.snapshotLastIndex - q.start).toNat + k]? = some e := by
  rw [← List.getElem?_drop]
  obtain ⟨rest, hrest⟩ := h.stored
  rw [← hrest, List.getElem?_append_left (List.getElem?_eq_some_iff.mp he).1, he]

theorem mem_of_stored {e : LogEntry} (he : e ∈ log.entries) : e ∈ q.entries := by
  obtain ⟨k, hk⟩ := List.mem_iff_getElem?.mp he
  exact List.mem_of_getElem? (h.getElem?_stored hk)

theorem of_extends (hext : Sequel.Extends q q') : OnTrack q' log := by
  have hlen := hext.length_le
  have hwithin := h.within
  refine ⟨by rw [hext.start]; exact h.start_le, h.marker_le, h.applied_le, h.commit_le,
    by rw [hext.start]; omega, ?_⟩
  rw [hext.start]
  exact h.stored.trans (hext.entries.drop _)

theorem append {e : LogEntry} (he : e.index = log.lastIndex + 1)
    (hmem : e ∈ q.entries) : OnTrack q { log with entries := log.entries ++ [e] } := by
  have hc := h.commit_le
  have hstart := h.start_le
  refine ⟨h.start_le, h.marker_le, h.applied_le, ?_, h.within, ?_⟩
  · simp only [List.length_append, List.length_singleton]
    omega
  · obtain ⟨-, hget⟩ := Sequel.getElem?_of_mem hmem
    rw [he, h.lastIndex] at hget
    have hnext : (q.entries.drop (log.snapshotLastIndex - q.start).toNat)[log.entries.length]? =
        some e := by
      rw [List.getElem?_drop, ← hget]
      congr 1
      omega
    have htake := List.prefix_iff_eq_take.mp h.stored
    have hcut := List.take_prefix (log.entries.length + 1)
      (q.entries.drop (log.snapshotLastIndex - q.start).toNat)
    rw [List.take_add_one, hnext, ← htake] at hcut
    exact hcut

theorem compact (i : Int) : OnTrack q (log.compactLogBefore i).1 := by
  rcases RaftLog.compactLogBefore_cases h.contiguous i with heq | ⟨k, e, he, hle, heq⟩
  · rwa [heq]
  · have hlt := (List.getElem?_eq_some_iff.mp he).1
    have hstart := h.start_le
    have hc := h.commit_le
    have hl := h.lastIndex_le
    rw [h.lastIndex] at hl
    rw [heq]
    refine ⟨by dsimp only; omega, hle, h.applied_le, ?_, by dsimp only; omega, ?_⟩
    · simp only [List.length_drop]
      omega
    · have hd := h.stored.drop (k + 1)
      rw [List.drop_drop] at hd
      convert hd using 2
      dsimp only
      omega

theorem reconcile {new : List LogEntry} (hnew : ∀ e ∈ new, e ∈ q.entries) (prev prevTerm : Int) :
    OnTrack q (log.reconcileFollowerEntries prev prevTerm new).1 ∧
      (log.reconcileFollowerEntries prev prevTerm new).1.lastApplied = log.lastApplied ∧
      (log.reconcileFollowerEntries prev prevTerm new).1.commitIndex = log.commitIndex := by
  have hloop : OnTrack q (RaftLog.reconcileLoop new log).1 ∧
      (RaftLog.reconcileLoop new log).1.lastApplied = log.lastApplied ∧
      (RaftLog.reconcileLoop new log).1.commitIndex = log.commitIndex := by
    refine RaftLog.reconcileLoop_invariant (P := fun log' => OnTrack q log' ∧
      log'.lastApplied = log.lastApplied ∧ log'.commitIndex = log.commitIndex)
      (fun _ h => h.1.contiguous) ?_ ?_ log ⟨h, rfl, rfl⟩
    · rintro log' f hf e ⟨htrack, hlast, hcommit⟩ hidx hsame
      have hnonneg := q.nonneg
      have hpos := (Sequel.getElem?_of_mem (hnew f hf)).1
      have hef : e = f := hsame.resolve_right (by omega)
      exact ⟨htrack.append hidx (hef ▸ hnew f hf), hlast, hcommit⟩
    · -- the entry stored at an index and the one of the request are the same entry of the sequel
      rintro log' e he k f ⟨htrack, -⟩ hidx hget hne
      have hf := htrack.getElem?_stored hget
      have hstart := htrack.start_le
      obtain ⟨-, hat⟩ := Sequel.getElem?_of_mem (hnew e he)
      rw [show (e.index - q.start - 1).toNat = (log'.snapshotLastIndex - q.start).toNat + k by omega,
        hf, Option.some.injEq] at hat
      exact absurd (congrArg LogEntry.term hat) hne
  rw [RaftLog.reconcileFollowerEntries_fst]
  split_ifs
  · exact hloop
  · exact ⟨h, rfl, rfl⟩

theorem restore {i : Int} (hi : log.lastApplied ≤ i) (hend : i ≤ q.start + q.entries.length) (term : Int) :
    OnTrack q (log.restoreSnapshot i term) := by
  have hstart := h.start_le
  have hmarker := h.marker_le
  have hc := h.commit_le
  unfold RaftLog.restoreSnapshot
  rw [RaftLog.filter_index_gt h.contiguous (by omega)]
  refine ⟨by dsimp only; omega, by dsimp only; omega, by dsimp only; omega, ?_, hend, ?_⟩
  · simp only [List.length_drop]
    omega
  · have hd := h.stored.drop (i - log.snapshotLastIndex).toNat
    rw [List.drop_drop] at hd
    convert hd using 2
    dsimp only
    omega

end

end OnTrack

/-! ### Engines on track -/

namespace RaftReplicationEngine

/-- The log is on track, and the state machine is the state after the entries applied. -/
structure Tracks (q : Sequel) (eng : Engine) : Prop where
  log : OnTrack q eng.log
  machine : q.stateAt eng.log.lastApplied = some eng.stateMachine

variable {q q' : Sequel} {eng eng' : Engine}

theorem Tracks.of_sameCore (h : Tracks q eng) (hsame : SameCore eng eng') : Tracks q eng' :=
  ⟨by rw [hsame.log]; exact h.log, by rw [hsame.log, hsame.stateMachine]; exact h.machine⟩

theorem Tracks.of_extends (h : Tracks q eng) (hext : Sequel.Extends q q') : Tracks q' eng := by
  have hap := h.log.applied_le
  have hend := h.log.commit_le_end
  exact ⟨h.log.of_extends hext, (hext.stateAt (by omega)).trans h.machine⟩

theorem Tracks.applyOne (h : Tracks q eng) (clock : Clock)
    (hlt : eng.log.lastApplied < eng.log.commitIndex) {entry : LogEntry}
    (hentry : eng.log.entries[(eng.log.lastApplied - eng.log.snapshotLastIndex).toNat]? = some entry) :
    match (applyOne clock entry eng).2 with
    | .ok _ => Tracks q (applyOne clock entry eng).1 ∧
      (applyOne clock entry eng).1.log.lastApplied = eng.log.lastApplied + 1
    | .error _ => q.stateAt (eng.log.lastApplied + 1) = none := by
  obtain ⟨sm, out, happ, hsm, hout, -, -, -, hlog⟩ := applyOne_eq clock entry eng
  have hstart := h.log.start_le
  have hmarker := h.log.marker_le
  have hat := h.log.getElem?_stored hentry
  have hidx := h.log.contiguous _ entry hentry
  rw [show (eng.log.snapshotLastIndex - q.start).toNat +
    (eng.log.lastApplied - eng.log.snapshotLastIndex).toNat = (eng.log.lastApplied - q.start).toNat
    by omega] at hat
  have hnext := Sequel.stateAt_succ (by omega) hat
  rw [h.machine, Option.bind_some, applied?_eq (q.stamped entry (List.mem_of_getElem? hat)) clock,
    happ] at hnext
  rw [hout]
  cases out with
  | error e => exact hnext
  | ok res =>
    have hmark : eng.log.markApplied entry.index =
        { eng.log with lastApplied := eng.log.lastApplied + 1 } := by
      rw [RaftLog.markApplied, hidx, if_pos (by omega), min_eq_left (by omega)]
      congr 1
      omega
    rw [hmark] at hlog
    refine ⟨⟨?_, ?_⟩, by rw [hlog]⟩
    · rw [hlog]
      exact ⟨hstart, by dsimp only; omega, by dsimp only; omega, h.log.commit_le, h.log.within,
        h.log.stored⟩
    · rwa [hlog, hsm]

/-- **The loop**: the committed entries are applied, or one of them raises, in the sequel as well. -/
theorem Tracks.applyLoop (clock : Clock) (es : List LogEntry) :
    ∀ (results : List (Int × CommandResult)) (eng : Engine), Tracks q eng →
      es = (eng.log.entries.take (eng.log.commitIndex - eng.log.snapshotLastIndex).toNat).drop
        (eng.log.lastApplied - eng.log.snapshotLastIndex).toNat →
      Tracks q (applyLoop clock es results eng).1 ∧
          (applyLoop clock es results eng).1.log.lastApplied = eng.log.commitIndex ∨
        ¬ NoRaise (applyLoop clock es results eng).1 ∧ q.stateAt eng.log.commitIndex = none := by
  induction es with
  | nil =>
    intro results eng h hes
    left
    refine ⟨h, le_antisymm h.log.applied_le ?_⟩
    have hlen := congrArg List.length hes
    have hmarker := h.log.marker_le
    have hc := h.log.commit_le
    simp only [List.length_nil, List.length_drop, List.length_take] at hlen
    dsimp only [RaftReplicationEngine.applyLoop]
    omega
  | cons entry rest ih =>
    intro results eng h hes
    have hmarker := h.log.marker_le
    have hnext := congrArg (·[0]?) hes
    simp only [List.getElem?_cons_zero, List.getElem?_drop, List.getElem?_take, add_zero] at hnext
    split_ifs at hnext with hlt
    have hone := h.applyOne clock (by omega) hnext.symm
    obtain ⟨sm, out, -, -, hout, hcall, -⟩ := applyOne_eq clock entry eng
    have hkept := applyOne_kept clock entry eng
    rw [RaftReplicationEngine.applyLoop]
    rcases hres : RaftReplicationEngine.applyOne clock entry eng with ⟨eng₁, res⟩
    rw [hres] at hone hout hcall hkept
    subst hout
    cases res with
    | error e =>
      refine Or.inr ⟨fun hno => ?_, Sequel.stateAt_eq_none_of_le (by omega) hone⟩
      obtain ⟨v, hv⟩ := hno ⟨entry, clock, .error e⟩ (by rw [hcall]; simp)
      simp at hv
    | ok v =>
      obtain ⟨h₁, hlast⟩ := hone
      have hrest : rest = (eng₁.log.entries.take
          (eng₁.log.commitIndex - eng₁.log.snapshotLastIndex).toNat).drop
          (eng₁.log.lastApplied - eng₁.log.snapshotLastIndex).toNat := by
        rw [hkept.entries, hkept.commitIndex, hkept.snapshotLastIndex, hlast,
          show (eng.log.lastApplied + 1 - eng.log.snapshotLastIndex).toNat =
            (eng.log.lastApplied - eng.log.snapshotLastIndex).toNat + 1 by omega,
          ← List.drop_drop, ← hes, List.drop_one, List.tail_cons]
      have hrun := ih (results ++ [(entry.index, v)]) eng₁ h₁ hrest
      rwa [hkept.commitIndex] at hrun

/-- **Committing**: everything committed is applied, unless a command raises. -/
theorem Tracks.commitTo (h : Tracks q eng) (clock : Clock) (i : Int) :
    Tracks q (commitTo clock i eng).1 ∧
        (commitTo clock i eng).1.log.lastApplied = max eng.log.commitIndex (min i eng.log.lastIndex) ∨
      ¬ NoRaise (commitTo clock i eng).1 ∧ q.stateAt (max eng.log.commitIndex (min i eng.log.lastIndex)) = none := by
  have hc := h.log.commit_le
  have hap := h.log.applied_le
  have hlast := h.log.lastIndex
  have h₁ : Tracks q { eng with log := eng.log.advanceCommitIndex i } := by
    rw [RaftLog.advanceCommitIndex_eq]
    exact ⟨⟨h.log.start_le, h.log.marker_le, by dsimp only; omega, by dsimp only; omega,
      h.log.within, h.log.stored⟩, h.machine⟩
  have hcommit : (eng.log.advanceCommitIndex i).commitIndex =
      max eng.log.commitIndex (min i eng.log.lastIndex) := by rw [RaftLog.advanceCommitIndex_eq]
  rw [← hcommit]
  exact Tracks.applyLoop clock _ [] _ h₁
    (RaftLog.getUnappliedEntries_eq h₁.log.marker_le h₁.log.applied_le)

theorem commitTo_commitIndex (eng : Engine) (clock : Clock) (i : Int) :
    (commitTo clock i eng).1.log.commitIndex = max eng.log.commitIndex (min i eng.log.lastIndex) := by
  rw [commitTo, (applyCommittedEntries_kept clock _).commitIndex, RaftLog.advanceCommitIndex_eq]

theorem NoRaise.of_commitTo {clock : Clock} {i : Int} (h : NoRaise (commitTo clock i eng).1) : NoRaise eng := by
  obtain ⟨calls, heq, -⟩ :=
    applyCommittedEntries_calls clock { eng with log := eng.log.advanceCommitIndex i }
  exact NoRaise.of_append h heq

end RaftReplicationEngine

end MeshWeaver
