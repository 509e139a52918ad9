import MeshWeaver.Raft.EngineFacts

/-!
# What an acknowledgement vouches for

A follower answers an accepted request with the last index of its own log. The leader reads the answer as a promise
about its own entries, which is kept exactly when the follower's log is not longer than the leader's or one of the
entries sent conflicts with a stored one (`acknowledgement_vouches_iff`): a longer log without a conflict keeps its
tail, which the request never looked at.
-/

namespace MeshWeaver

open Lib

namespace RaftReplicationEngine

/-- An answer `m` vouches only for verified entries: `m` lies in the leader's log, up to `m` the
follower holds the leader's entries, and every index it newly commits lies in that range. -/
structure Vouches (leader before after : Engine) (m : Int) : Prop where
  inLeaderLog : m ≤ leader.log.lastIndex
  sameEntries : ∀ i, 1 ≤ i → i ≤ m → after.log.getEntry i = leader.log.getEntry i
  committed : ∀ i, before.log.commitIndex < i → i ≤ after.log.commitIndex → 1 ≤ i ∧ i ≤ m

def oneEntry : Engine := { init "a" with log := ⟨[writeEntry 1 1 "x"], 0, 0, 0, 0⟩ }

def twoEntries : Engine :=
  { init "b" with log := ⟨[writeEntry 1 1 "x", writeEntry 2 1 "y"], 0, 0, 0, 0⟩ }

theorem oneEntry_uncompacted : oneEntry.log.Uncompacted :=
  ⟨rfl, ContiguousFrom.cons_iff.mpr ⟨rfl, ContiguousFrom.nil⟩⟩

theorem twoEntries_uncompacted : twoEntries.log.Uncompacted :=
  ⟨rfl, ContiguousFrom.cons_iff.mpr ⟨rfl, ContiguousFrom.cons_iff.mpr ⟨rfl, ContiguousFrom.nil⟩⟩⟩

/-- **An acknowledgement vouches only for verified entries exactly when** the follower's log is not
longer than the leader's or an entry of the request conflicts with a stored one. -/
theorem acknowledgement_vouches_iff (leader follower : Engine) (hL : leader.log.Uncompacted)
    (hF : follower.log.Uncompacted) (hagree : Agree follower.log.entries leader.log.entries)
    (hcommit : 0 ≤ follower.log.commitIndex) (leaderTerm term : Int) (now : Rat) (peer : Address)
    (clock : Clock) (req : AppendEntriesRequest) (resp : AppendEntriesResponse)
    (hreq : leader.requestFor leaderTerm now peer = .appendEntriesRequest req)
    (hresp : (follower.handleAppendEntriesRequest term clock req).2 = .ok resp)
    (hsuccess : resp.success = true) :
    Vouches leader follower (follower.handleAppendEntriesRequest term clock req).1
        resp.matchIndex ↔
      follower.log.lastIndex ≤ leader.log.lastIndex ∨ EntryConflicts follower.log req.entries := by
  obtain ⟨req', heq, hbuilt, -⟩ := requestFor_eq hL leaderTerm now peer
  cases heq.symm.trans hreq
  rcases handleAppendEntriesRequest_cases hF hL.numbered hagree hbuilt term clock with
    ⟨resp', hr, hfail, -⟩ | hacc
  · -- a refusal is not a success
    rw [hr] at hresp
    cases hresp
    rw [hfail] at hsuccess
    cases hsuccess
  have hm : resp.matchIndex =
      (follower.handleAppendEntriesRequest term clock req).1.log.entries.length := by
    rw [hacc.answer resp hresp]
  rw [hbuilt.entries, entryConflicts_iff hF hL.numbered, ← hbuilt.entries, hF.lastIndex,
    hL.lastIndex]
  constructor
  · intro hv
    rcases hacc.entries with ⟨-, hconf | hle⟩ | ⟨hown, -, hlt⟩
    · exact Or.inr hconf
    · exact Or.inl (by omega)
    · -- the follower kept a longer log of its own: the answer exceeds the leader's last index
      have := hv.inLeaderLog
      rw [hm, hown, hL.lastIndex] at this
      omega
  · intro hcond
    have hsame : (follower.handleAppendEntriesRequest term clock req).1.log.entries =
        leader.log.entries := by
      rcases hacc.entries with ⟨hL', -⟩ | ⟨-, hno, hlt⟩
      · exact hL'
      · exact absurd hcond (not_or.mpr ⟨by omega, hno⟩)
    refine ⟨?_, fun i hi _ => ?_, fun i hlo hhi => ⟨by omega, ?_⟩⟩
    · rw [hm, hsame, hL.lastIndex]
    · rw [hacc.uncompacted.getEntry hi, hL.getEntry hi, hsame]
    · -- what is newly committed lies above the old commit index, hence comes from the leader's
      have hle := RaftLog.mergedCommit_le follower.log req.prevLogIndex.toNat req.entries
      rw [hacc.commitIndex] at hhi
      omega

/-- The promise kept: an empty follower takes over the leader's only entry and answers 1. -/
theorem acknowledgement_vouches_for_new_entry :
    ∃ req resp, oneEntry.requestFor 1 0 ⟨"b", 7000⟩ = .appendEntriesRequest req ∧
      ((init "b").handleAppendEntriesRequest 1 (fun _ => 0) req).2 = .ok resp ∧
      Vouches oneEntry (init "b") ((init "b").handleAppendEntriesRequest 1 (fun _ => 0) req).1
        resp.matchIndex :=
  ⟨_, _, rfl, rfl, (acknowledgement_vouches_iff oneEntry (init "b") oneEntry_uncompacted
    RaftLog.Uncompacted.empty (Agree.of_isPrefix List.nil_prefix) le_rfl 1 1 0 ⟨"b", 7000⟩
    (fun _ => 0) _ _ rfl rfl rfl).mpr (Or.inl (by decide))⟩

/-- The promise broken: the follower holds one entry more than the leader, the request contains
nothing new, and the answer is 2. -/
theorem acknowledgement_beyond_leader_log :
    oneEntry.log.Uncompacted ∧ twoEntries.log.Uncompacted ∧
      Agree twoEntries.log.entries oneEntry.log.entries ∧
      ∃ req resp, oneEntry.requestFor 2 0 ⟨"b", 7000⟩ = .appendEntriesRequest req ∧
        (twoEntries.handleAppendEntriesRequest 2 (fun _ => 0) req).2 = .ok resp ∧
        resp.success = true ∧ resp.matchIndex = 2 ∧ oneEntry.log.lastIndex = 1 ∧
        ¬ Vouches oneEntry twoEntries
          (twoEntries.handleAppendEntriesRequest 2 (fun _ => 0) req).1 resp.matchIndex := by
  refine ⟨oneEntry_uncompacted, twoEntries_uncompacted, ?_, _, _, rfl, rfl, rfl, rfl, rfl, ?_⟩
  · have hpre : oneEntry.log.entries <+: twoEntries.log.entries := ⟨[writeEntry 2 1 "y"], rfl⟩
    exact (Agree.of_isPrefix hpre).symm
  · intro hv
    exact absurd hv.inLeaderLog (by decide)

end RaftReplicationEngine

end MeshWeaver
