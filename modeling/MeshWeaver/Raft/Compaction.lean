import MeshWeaver.Lib.Run
import MeshWeaver.Raft.EngineFacts

/-!
# Compaction and later requests

Handling a request after a compaction comes to the same as handling it before exactly when the request starts at or
above the compaction point (`compaction_transparent_iff`). One that starts below it is refused, or, at the very
beginning, makes `append_entry` raise: `get_entry` answers `None` for an entry that has been compacted away as for one
that has not arrived yet.
-/

namespace MeshWeaver

open Lib

namespace RaftLog

variable {log log' : RaftLog}

/-- An uncompacted log whose indexes are in order. -/
structure Sound (log : RaftLog) : Prop where
  uncompacted : log.Uncompacted
  lastApplied_nonneg : 0 ≤ log.lastApplied
  lastApplied_le : log.lastApplied ≤ log.commitIndex
  commitIndex_le : log.commitIndex ≤ log.entries.length

inductive LogOp where
  | appendEntry (entry : LogEntry)
  | appendCommand (term : Int) (command : Command) (now : Rat)
  | advanceCommitIndex (i : Int)
  | markApplied (i : Int)

/-- The log after an operation; one that raises leaves it as it is. -/
def LogOp.apply (log : RaftLog) : LogOp → RaftLog
  | .appendEntry entry =>
    match log.appendEntry entry with
    | .ok (log', _) => log'
    | .error _ => log
  | .appendCommand term command now =>
    match log.appendCommand term command now with
    | .ok (log', _) => log'
    | .error _ => log
  | .advanceCommitIndex i => log.advanceCommitIndex i
  | .markApplied i => log.markApplied i

theorem Sound.empty : RaftLog.empty.Sound :=
  ⟨Uncompacted.empty, le_rfl, le_rfl, le_rfl⟩

theorem Sound.append (h : log.Sound) {e : LogEntry} (he : e.index = log.lastIndex + 1) :
    ({ log with entries := log.entries ++ [e] } : RaftLog).Sound := by
  refine ⟨⟨h.uncompacted.noSnapshot, h.uncompacted.numbered.append (.singleton ?_)⟩,
    h.lastApplied_nonneg, h.lastApplied_le, ?_⟩
  · rw [he, h.uncompacted.lastIndex]
    omega
  · have := h.commitIndex_le
    simp only [List.length_append, List.length_singleton]
    omega

theorem Sound.appendEntry (h : log.Sound) {e : LogEntry} {i : Int}
    (happ : log.appendEntry e = .ok (log', i)) : log'.Sound := by
  unfold RaftLog.appendEntry at happ
  dsimp only at happ
  split_ifs at happ with hpos hgap
  · cases happ
    exact h.append rfl
  · cases happ
    exact h.append (not_not.mp hgap)

theorem Sound.apply (h : log.Sound) (op : LogOp) : (op.apply log).Sound := by
  cases op with
  | appendEntry entry =>
    rw [LogOp.apply]
    cases happ : log.appendEntry entry with
    | error e => exact h
    | ok r => exact h.appendEntry happ
  | appendCommand term command now =>
    rw [LogOp.apply, RaftLog.appendCommand]
    rw [appendEntry_next rfl]
    exact h.append rfl
  | advanceCommitIndex i =>
    rw [LogOp.apply, RaftReplicationEngine.advanceCommitIndex_eq h.uncompacted]
    have := h.lastApplied_le
    have := h.commitIndex_le
    exact ⟨⟨h.uncompacted.noSnapshot, h.uncompacted.numbered⟩, h.lastApplied_nonneg,
      by dsimp only; omega, by dsimp only; omega⟩
  | markApplied i =>
    rw [LogOp.apply, markApplied]
    have := h.lastApplied_nonneg
    have := h.lastApplied_le
    split_ifs
    · exact ⟨⟨h.uncompacted.noSnapshot, h.uncompacted.numbered⟩, by dsimp only; omega,
        by dsimp only; omega, h.commitIndex_le⟩
    · exact h

theorem sound_run (ops : List LogOp) : (run LogOp.apply RaftLog.empty ops).Sound :=
  run_invariant (I := Sound) (fun _ op h => h.apply op) Sound.empty ops

/-! ### The compacted log -/

/-- **What compaction does**: it drops the applied entries up to `s`, the smaller of the two indexes,
and remembers the term of the last one. -/
theorem compactLogBefore_spec (h : log.Sound) (c : Int) :
    ∃ s : Nat, (s : Int) = max 0 (min c log.lastApplied) ∧ s ≤ log.entries.length ∧
      (log.compactLogBefore c).1.snapshotLastIndex = s ∧
      (log.compactLogBefore c).1.entries = log.entries.drop s ∧
      (1 ≤ s → (log.compactLogBefore c).1.snapshotLastTerm = termAt log.entries s) := by
  have ha := h.lastApplied_nonneg
  have hac := h.lastApplied_le
  have hcl := h.commitIndex_le
  unfold compactLogBefore
  rw [h.uncompacted.noSnapshot]
  by_cases hc : c ≤ 0
  · rw [if_pos hc]
    exact ⟨0, by omega, by omega, h.uncompacted.noSnapshot, rfl, by omega⟩
  rw [if_neg hc]
  dsimp only
  by_cases happ : log.lastApplied = 0
  · rw [h.uncompacted.getEntry_nonpos (by omega)]
    exact ⟨0, by omega, by omega, h.uncompacted.noSnapshot, rfl, by omega⟩
  · -- the entry at the target is stored
    obtain ⟨s, hs⟩ : ∃ s : Nat, min c log.lastApplied = s + 1 :=
      ⟨(min c log.lastApplied - 1).toNat, by omega⟩
    have hlt : s < log.entries.length := by omega
    have hget : log.getEntry (min c log.lastApplied) = some log.entries[s] := by
      rw [hs, h.uncompacted.getEntry_succ, List.getElem?_eq_getElem hlt]
    have hidx : log.entries[s].index = s + 1 := by
      rw [getEntry_index h.uncompacted.contiguous hget, hs]
    rw [hget]
    refine ⟨s + 1, by push_cast; omega, hlt, ?_, ?_, fun _ => ?_⟩
    · dsimp only
      rw [hidx]
      rfl
    · dsimp only
      rw [← h.uncompacted.numbered.filter_gt (s + 1), hs]
      congr 1
      funext e
      congr 2
      omega
    · rw [termAt, if_neg (by push_cast; omega), show ((s + 1 : Nat) - 1 : Int).toNat = s by omega,
        List.getElem?_eq_getElem hlt]
      rfl

section compacted
variable {s : Nat} (hentries : log'.entries = log.entries.drop s)
include hentries

theorem merged_entries_compacted {p : Nat} (hsp : s ≤ p) (hp : p ≤ log.entries.length) (new : List LogEntry) :
    (log'.merged (p - s) new).entries = (log.merged p new).entries.drop s := by
  show log'.entries.take (p - s) ++ mergeBy LogEntry.term (log'.entries.drop (p - s)) new = _
  show _ = (log.entries.take p ++ mergeBy LogEntry.term (log.entries.drop p) new).drop s
  have hlen : s ≤ (log.entries.take p).length := by simp; omega
  rw [List.drop_append_of_le_length hlen, hentries, List.drop_drop, List.drop_take,
    show s + (p - s) = p by omega]

variable (h : log.Uncompacted) (hs : log'.snapshotLastIndex = s)
include h hs

theorem getEntry_above {i : Int} (hi : (s : Int) < i) : log'.getEntry i = log.getEntry i := by
  rw [getEntry_eq, if_neg (by omega), h.getEntry (by omega), hs, hentries, List.getElem?_drop]
  congr 1
  omega

variable (hterm : 1 ≤ s → log'.snapshotLastTerm = termAt log.entries s) {prev prevTerm : Int}
  (hprev : (s : Int) ≤ prev) (hcheck : log.checkConsistency prev prevTerm = true)
include hterm hprev hcheck

theorem checkConsistency_compacted : log'.checkConsistency prev prevTerm = true := by
  rcases h.checkConsistency_iff.mp hcheck with rfl | ⟨hpos, e, he, heterm⟩
  · rfl
  unfold checkConsistency
  rw [if_neg (by omega), hs]
  by_cases hbound : prev = s
  · rw [if_pos hbound, hterm (by omega), termAt, if_neg (by omega), ← hbound, he]
    simpa using heterm
  · rw [if_neg hbound, getEntry_above hentries h hs (by omega), h.getEntry hpos, he]
    simpa using heterm

/-- **Above the compaction point nothing changes**: the same answer and the same entries. -/
theorem reconcile_compacted (hslen : s ≤ log.entries.length) {new : List LogEntry}
    (hnew : ContiguousFrom (1 + prev.toNat) new) :
    let after := log.merged prev.toNat new
    let after' := log'.merged (prev.toNat - s) new
    log.reconcileFollowerEntries prev prevTerm new = (after, .ok (true, after.lastIndex)) ∧
      log'.reconcileFollowerEntries prev prevTerm new = (after', .ok (true, after.lastIndex)) ∧
      ∀ i, (s : Int) < i → after'.getEntry i = after.getEntry i := by
  intro after after'
  obtain ⟨hnonneg, hlen⟩ := prev_le_length h hcheck
  have hcheck' := checkConsistency_compacted hentries h hs hterm hprev hcheck
  have hc : log.Contiguous := h.contiguous
  have hc' : log'.Contiguous := by
    rw [Contiguous, hs, hentries, add_comm]
    exact h.numbered.drop s
  have hnew₀ : ContiguousFrom (log.snapshotLastIndex + 1 + prev.toNat) new := by
    rwa [h.noSnapshot, zero_add]
  have hnew' : ContiguousFrom (log'.snapshotLastIndex + 1 + (prev.toNat - s : Nat)) new := by
    convert hnew using 1
    omega
  have hlen' : prev.toNat - s ≤ log'.entries.length := by
    rw [hentries, List.length_drop]
    omega
  have hloop := reconcileLoop_eq_merge new log prev.toNat hc hlen hnew₀
  have hloop' := reconcileLoop_eq_merge new log' (prev.toNat - s) hc' hlen' hnew'
  have hafter : after.Uncompacted := by
    refine ⟨h.noSnapshot, ?_⟩
    have := merged_contiguous hc hlen hnew₀
    rwa [Contiguous, show (log.merged prev.toNat new).snapshotLastIndex = 0 from h.noSnapshot] at this
  have hdrop : after'.entries = after.entries.drop s :=
    merged_entries_compacted hentries (by omega) hlen new
  have hkept : s ≤ after.entries.length := by
    show s ≤ (log.entries.take prev.toNat ++ _).length
    rw [List.length_append, List.length_take]
    omega
  have hlast : after'.lastIndex = after.lastIndex := by
    rw [lastIndex_eq (merged_contiguous hc' hlen' hnew'), hafter.lastIndex,
      show (log'.merged (prev.toNat - s) new).snapshotLastIndex = s from hs]
    rw [hdrop, List.length_drop]
    omega
  have hs' : after'.snapshotLastIndex = s := hs
  refine ⟨?_, ?_, fun i hi => getEntry_above hdrop hafter hs' hi⟩
  · rw [reconcileFollowerEntries, if_pos hcheck, hloop]
  · rw [reconcileFollowerEntries, if_pos hcheck', hloop']
    exact congrArg (fun m => (after', Except.ok (true, m))) hlast

end compacted

/-- **Below the compaction point the request is not accepted**: the check fails, or the first entry
is appended at the wrong place and raises. -/
theorem reconcile_below {s : Nat} (hs : log'.snapshotLastIndex = s)
    (hc : log'.Contiguous) {prev prevTerm : Int} (hnonneg : 0 ≤ prev) (hprev : prev < s)
    {first : LogEntry} {rest : List LogEntry} (hfirst : first.index = prev + 1) {after : RaftLog} {m : Int} :
    log'.reconcileFollowerEntries prev prevTerm (first :: rest) ≠ (after, .ok (true, m)) := by
  rcases eq_or_lt_of_le hnonneg with rfl | hpos
  · -- the whole log: the first entry looks new, and does not follow the last one
    have hnone : log'.getEntry first.index = none := getEntry_of_le (by omega)
    have hlast := lastIndex_eq hc
    have hraise : ∃ e, log'.appendEntry first = .error e := by
      unfold appendEntry
      rw [if_neg (by omega), if_pos (by omega)]
      exact ⟨_, rfl⟩
    obtain ⟨e, he⟩ := hraise
    have hcheck : log'.checkConsistency 0 prevTerm = true := rfl
    rw [reconcileFollowerEntries, if_pos hcheck, reconcileLoop, hnone]
    rw [he]
    simp
  · have hcheck : log'.checkConsistency prev prevTerm = false := by
      unfold checkConsistency
      rw [if_neg (by omega), if_neg (by omega), getEntry_of_le (by omega)]
    rw [reconcileFollowerEntries, hcheck]
    simp

end RaftLog

namespace RaftReplicationEngine

open RaftLog

/-- The request is accepted after compacting at `c` with the answer `m`, and the entries above the
compaction point are those of `after`. -/
def AcceptedAlike (log : RaftLog) (c : Int) (req : AppendEntriesRequest) (after : RaftLog) (m : Int) :
    Prop :=
  ∃ after', (log.compactLogBefore c).1.reconcileFollowerEntries req.prevLogIndex req.prevLogTerm
      req.entries = (after', .ok (true, m)) ∧
    ∀ i, (log.compactLogBefore c).1.snapshotLastIndex < i → after'.getEntry i = after.getEntry i

/-- **Compaction is transparent to a request exactly when** the request starts at or above the
compaction point `min c last_applied`. -/
theorem compaction_transparent_iff (ops : List LogOp) (c : Int) (leader : Engine)
    (hleader : leader.log.Uncompacted)
    (hcommitted : (run LogOp.apply .empty ops).entries.take
      (run LogOp.apply .empty ops).commitIndex.toNat <+: leader.log.entries)
    (term : Int) (now : Rat) (peer : Address) (hnext : 1 ≤ leader.nextIndexFor peer)
    (req : AppendEntriesRequest)
    (hreq : leader.requestFor term now peer = .appendEntriesRequest req) (after : RaftLog) (m : Int)
    (haccept : (run LogOp.apply .empty ops).reconcileFollowerEntries req.prevLogIndex
      req.prevLogTerm req.entries = (after, .ok (true, m))) :
    AcceptedAlike (run LogOp.apply .empty ops) c req after m ↔
      min c (run LogOp.apply .empty ops).lastApplied ≤ req.prevLogIndex := by
  have hlog := sound_run ops
  set log := run LogOp.apply .empty ops
  obtain ⟨req', heq, hbuilt, -, -, -, hprev⟩ := requestFor_eq hleader term now peer
  cases heq.symm.trans hreq
  have hcheck : log.checkConsistency req.prevLogIndex req.prevLogTerm = true := by
    by_contra hno
    rw [reconcileFollowerEntries, if_neg hno] at haccept
    simp at haccept
  obtain ⟨s, hs, hslen, hsnap, hentries, hterm⟩ := compactLogBefore_spec hlog c
  have hac := hlog.lastApplied_le
  have hcl := hlog.commitIndex_le
  constructor
  · rintro ⟨after', hacc, -⟩
    by_contra hbelow
    -- the leader holds the committed entry right after the previous index
    have hlen := hcommitted.length_le
    rw [List.length_take] at hlen
    have hlt : req.prevLogIndex.toNat < leader.log.entries.length := by omega
    have hdrop := List.drop_eq_getElem_cons hlt
    rw [hbuilt.entries, hdrop] at hacc
    refine reconcile_below hsnap ?_ (by omega) (by omega) ?_ hacc
    · rw [Contiguous, hsnap, hentries, add_comm]
      exact hlog.uncompacted.numbered.drop s
    · rw [hleader.numbered _ _ (List.getElem?_eq_getElem hlt)]
      omega
  · intro hle
    have hnew : ContiguousFrom (1 + req.prevLogIndex.toNat) req.entries := by
      rw [hbuilt.entries]
      exact hleader.numbered.drop _
    obtain ⟨hrec, hrec', habove⟩ := reconcile_compacted hentries hlog.uncompacted hsnap hterm
      (by omega) hcheck hslen hnew
    cases haccept.symm.trans hrec
    exact ⟨_, hrec', by rwa [hsnap]⟩

def twoApplied : List LogOp :=
  [.appendEntry (writeEntry 1 1 "x"), .appendEntry (writeEntry 2 1 "y"), .advanceCommitIndex 2,
    .markApplied 2]

def leaderOfTwo (progress : Dict PeerKey FollowerProgress) : Engine :=
  { init "a" with
    log := ⟨[writeEntry 1 1 "x", writeEntry 2 1 "y"], 2, 2, 0, 0⟩, followers := progress }

theorem leaderOfTwo_uncompacted (progress : Dict PeerKey FollowerProgress) :
    (leaderOfTwo progress).log.Uncompacted :=
  ⟨rfl, ContiguousFrom.cons_iff.mpr ⟨rfl, ContiguousFrom.cons_iff.mpr ⟨rfl, ContiguousFrom.nil⟩⟩⟩

/-- A leader that knows the follower's progress goes on after a compaction as before it. -/
theorem compaction_transparent_at_end :
    ∃ req after m, (leaderOfTwo (Lib.Dict.empty.insert (.addr ⟨"b", 7000⟩)
        ⟨.addr ⟨"b", 7000⟩, 2, 3⟩)).requestFor 1 0 ⟨"b", 7000⟩ = .appendEntriesRequest req ∧
      AcceptedAlike (run LogOp.apply .empty twoApplied) 1 req after m :=
  ⟨_, _, _, rfl, (compaction_transparent_iff twoApplied 1 (leaderOfTwo _)
    (leaderOfTwo_uncompacted _) (List.prefix_refl _) 1 0 ⟨"b", 7000⟩ (by decide) _ rfl _ _
    rfl).mpr (by decide)⟩

/-- A leader without a progress record sends its whole log. The follower accepts it; after compacting
its first entry the same request raises. -/
theorem compaction_breaks_whole_log :
    (leaderOfTwo .empty).log.Uncompacted ∧
      (run LogOp.apply .empty twoApplied).entries <+: (leaderOfTwo .empty).log.entries ∧
      ∃ req after, (leaderOfTwo .empty).requestFor 1 0 ⟨"b", 7000⟩ = .appendEntriesRequest req ∧
        req.prevLogIndex = 0 ∧ req.entries = (leaderOfTwo .empty).log.entries ∧
        (run LogOp.apply .empty twoApplied).reconcileFollowerEntries req.prevLogIndex
          req.prevLogTerm req.entries = (after, .ok (true, 2)) ∧
        (((run LogOp.apply .empty twoApplied).compactLogBefore 1).1.reconcileFollowerEntries
          req.prevLogIndex req.prevLogTerm req.entries).2 =
            .error (.valueError "Log entry index gap: expected 3, got 1") ∧
        ¬ AcceptedAlike (run LogOp.apply .empty twoApplied) 1 req after 2 := by
  refine ⟨leaderOfTwo_uncompacted _, List.prefix_refl _, _, _, rfl, rfl, rfl, rfl, rfl, ?_⟩
  rintro ⟨after', hacc, -⟩
  have hraise : (.error (.valueError "Log entry index gap: expected 3, got 1") :
      Except PyError (Bool × Int)) = .ok (true, 2) := congrArg Prod.snd hacc
  cases hraise

end RaftReplicationEngine

end MeshWeaver
