import MeshWeaver.Raft.Engine
import MeshWeaver.Raft.Reconcile

/-!
# What the handlers of the replication engine do

One lemma for each handler, over an engine whose log has never been compacted. Committing and
applying never touch the stored entries or the progress records (`Kept`); the calls of
`apply_command` they make are for committed entries of the log (`CommitsTo`).
-/

namespace MeshWeaver

open Lib

namespace RaftReplicationEngine

variable {eng eng' : Engine} {clock : Clock}

/-! ### Committing and applying -/

/-- What applying entries leaves as it is. -/
structure Kept (eng eng' : Engine) : Prop where
  nodeId : eng'.nodeId = eng.nodeId
  followers : eng'.followers = eng.followers
  entries : eng'.log.entries = eng.log.entries
  commitIndex : eng'.log.commitIndex = eng.log.commitIndex
  snapshotLastIndex : eng'.log.snapshotLastIndex = eng.log.snapshotLastIndex
  snapshotLastTerm : eng'.log.snapshotLastTerm = eng.log.snapshotLastTerm

theorem Kept.refl (eng : Engine) : Kept eng eng := ⟨rfl, rfl, rfl, rfl, rfl, rfl⟩

theorem Kept.trans {eng₁ eng₂ : Engine} (h : Kept eng eng₁) (h' : Kept eng₁ eng₂) : Kept eng eng₂ :=
  ⟨h'.1.trans h.1, h'.2.trans h.2, h'.3.trans h.3, h'.4.trans h.4, h'.5.trans h.5, h'.6.trans h.6⟩

section resolvePending
variable (eng : Engine) (i : Int) (res : CommandResult)

@[simp] theorem resolvePending_log : (eng.resolvePending i res).log = eng.log := by
  unfold resolvePending; split <;> rfl

@[simp] theorem resolvePending_stateMachine : (eng.resolvePending i res).stateMachine = eng.stateMachine := by
  unfold resolvePending; split <;> rfl

@[simp] theorem resolvePending_applyCalls : (eng.resolvePending i res).applyCalls = eng.applyCalls := by
  unfold resolvePending; split <;> rfl

@[simp] theorem resolvePending_followers : (eng.resolvePending i res).followers = eng.followers := by
  unfold resolvePending; split <;> rfl

@[simp] theorem resolvePending_nodeId : (eng.resolvePending i res).nodeId = eng.nodeId := by
  unfold resolvePending; split <;> rfl

end resolvePending

theorem applyOne_eq (clock : Clock) (entry : LogEntry) (eng : Engine) :
    ∃ sm out, eng.stateMachine.applyCommand clock entry = (sm, out) ∧
      (applyOne clock entry eng).1.stateMachine = sm ∧
      (applyOne clock entry eng).2 = out ∧
      (applyOne clock entry eng).1.applyCalls = eng.applyCalls ++ [⟨entry, clock, out⟩] ∧
      (applyOne clock entry eng).1.nodeId = eng.nodeId ∧
      (applyOne clock entry eng).1.followers = eng.followers ∧
      (applyOne clock entry eng).1.log =
        match out with
        | .ok _ => eng.log.markApplied entry.index
        | .error _ => eng.log := by
  unfold applyOne
  rcases eng.stateMachine.applyCommand clock entry with ⟨sm, out⟩
  cases out <;> exact ⟨_, _, rfl, by simp⟩

theorem markApplied_kept (log : RaftLog) (i : Int) :
    (log.markApplied i).entries = log.entries ∧ (log.markApplied i).commitIndex = log.commitIndex ∧
      (log.markApplied i).snapshotLastIndex = log.snapshotLastIndex ∧
      (log.markApplied i).snapshotLastTerm = log.snapshotLastTerm := by
  unfold RaftLog.markApplied
  split <;> exact ⟨rfl, rfl, rfl, rfl⟩

theorem applyOne_kept (clock : Clock) (entry : LogEntry) (eng : Engine) : Kept eng (applyOne clock entry eng).1 := by
  obtain ⟨sm, out, -, -, -, -, hid, hfol, hlog⟩ := applyOne_eq clock entry eng
  obtain ⟨he, hc, hi, ht⟩ := markApplied_kept eng.log entry.index
  cases out with
  | ok res => exact ⟨hid, hfol, by rw [hlog, he], by rw [hlog, hc], by rw [hlog, hi], by rw [hlog, ht]⟩
  | error e => exact ⟨hid, hfol, by rw [hlog], by rw [hlog], by rw [hlog], by rw [hlog]⟩

/-- **The loop rule**: what every round preserves, the loop preserves. -/
theorem applyLoop_invariant {P : Engine → Prop} {es : List LogEntry}
    (hround : ∀ eng entry, entry ∈ es → P eng → P (applyOne clock entry eng).1) :
    ∀ {results : List (Int × CommandResult)} {eng : Engine}, P eng → P (applyLoop clock es results eng).1 := by
  induction es with
  | nil => intro results eng h; exact h
  | cons entry rest ih =>
    intro results eng h
    have h₁ := hround eng entry List.mem_cons_self h
    rw [applyLoop]
    rcases hone : applyOne clock entry eng with ⟨eng₁, out⟩
    rw [hone] at h₁
    cases out with
    | error e => exact h₁
    | ok res => exact ih (fun eng x hx => hround eng x (List.mem_cons_of_mem _ hx)) h₁

theorem applyCommittedEntries_kept (clock : Clock) (eng : Engine) : Kept eng (applyCommittedEntries clock eng).1 :=
  applyLoop_invariant (P := Kept eng)
    (fun eng₁ entry _ h => h.trans (applyOne_kept clock entry eng₁)) (Kept.refl eng)

theorem applyCommittedEntries_calls (clock : Clock) (eng : Engine) :
    ∃ calls, (applyCommittedEntries clock eng).1.applyCalls = eng.applyCalls ++ calls ∧
      ∀ call ∈ calls, call.entry ∈ eng.log.getUnappliedEntries := by
  refine applyLoop_invariant (P := fun eng₁ => ∃ calls, eng₁.applyCalls = eng.applyCalls ++ calls ∧
    ∀ call ∈ calls, call.entry ∈ eng.log.getUnappliedEntries) ?_ ⟨[], by simp⟩
  rintro eng₁ entry hentry ⟨calls, heq, hcalls⟩
  obtain ⟨sm, out, -, -, -, hnew, -⟩ := applyOne_eq clock entry eng₁
  refine ⟨calls ++ [⟨entry, clock, out⟩], by rw [hnew, heq, List.append_assoc], ?_⟩
  intro call hcall
  rcases List.mem_append.mp hcall with h | h
  · exact hcalls call h
  · rwa [List.mem_singleton.mp h]

theorem mem_intRange {a b i : Int} : i ∈ intRange a b ↔ a ≤ i ∧ i < b := by
  simp only [intRange, List.mem_map, List.mem_range]
  constructor
  · omega
  · rintro ⟨ha, hb⟩
    exact ⟨(i - a).toNat, by omega, by omega⟩

theorem mem_getUnappliedEntries {log : RaftLog} (h : log.Uncompacted) {e : LogEntry}
    (he : e ∈ log.getUnappliedEntries) :
    ∃ k : Nat, log.entries[k]? = some e ∧ log.lastApplied ≤ k ∧ (k : Int) < log.commitIndex := by
  unfold RaftLog.getUnappliedEntries at he
  split_ifs at he with hle
  · simp at he
  obtain ⟨i, hi, hget⟩ := List.mem_filterMap.mp he
  rw [mem_intRange] at hi
  have hpos : 1 ≤ i := by
    by_contra hneg
    rw [h.getEntry_nonpos (by omega)] at hget
    simp at hget
  rw [h.getEntry hpos] at hget
  exact ⟨_, hget, by omega, by omega⟩

/-- **Committing**: the commit index is raised, at most to the end of the log, and nothing but the
applied part changes; the new calls of `apply_command` are for committed entries. -/
structure CommitsTo (eng : Engine) (i : Int) (eng' : Engine) : Prop where
  result : ∃ clock, eng' = (commitTo clock i eng).1
  nodeId : eng'.nodeId = eng.nodeId
  followers : eng'.followers = eng.followers
  entries : eng'.log.entries = eng.log.entries
  noSnapshot : eng'.log.snapshotLastIndex = 0
  commitIndex : eng'.log.commitIndex = max eng.log.commitIndex (min i eng.log.entries.length)
  calls : ∃ calls, eng'.applyCalls = eng.applyCalls ++ calls ∧
    ∀ call ∈ calls, ∃ k : Nat, eng'.log.entries[k]? = some call.entry ∧
      (k : Int) < eng'.log.commitIndex

theorem CommitsTo.uncompacted {i : Int} (hc : CommitsTo eng i eng') (h : eng.log.Uncompacted) :
    eng'.log.Uncompacted := ⟨hc.noSnapshot, by rw [hc.entries]; exact h.numbered⟩

theorem advanceCommitIndex_eq {log : RaftLog} (h : log.Uncompacted) (i : Int) :
    log.advanceCommitIndex i = { log with commitIndex := max log.commitIndex (min i log.entries.length) } := by
  rw [RaftLog.advanceCommitIndex_eq, h.lastIndex]

theorem commitTo_spec (h : eng.log.Uncompacted) (clock : Clock) (i : Int) :
    CommitsTo eng i (commitTo clock i eng).1 := by
  have hadv := advanceCommitIndex_eq h i
  have hun : (eng.log.advanceCommitIndex i).Uncompacted := by
    rw [hadv]; exact ⟨h.noSnapshot, h.numbered⟩
  have hkept := applyCommittedEntries_kept clock { eng with log := eng.log.advanceCommitIndex i }
  obtain ⟨calls, heq, hcalls⟩ :=
    applyCommittedEntries_calls clock { eng with log := eng.log.advanceCommitIndex i }
  refine ⟨⟨clock, rfl⟩, hkept.nodeId, hkept.followers, ?_, ?_, ?_, calls, heq, fun call hcall => ?_⟩
  · rw [commitTo, hkept.entries, hadv]
  · rw [commitTo, hkept.snapshotLastIndex, hun.noSnapshot]
  · rw [commitTo, hkept.commitIndex, hadv]
  · obtain ⟨k, hk, -, hlt⟩ := mem_getUnappliedEntries hun (hcalls call hcall)
    exact ⟨k, by rw [commitTo, hkept.entries]; exact hk, by rw [commitTo, hkept.commitIndex]; exact hlt⟩

/-! ### Requests -/

/-- The request carries the entries of `L` after its previous index, and the term of `L` there. -/
structure BuiltFrom (req : AppendEntriesRequest) (L : List LogEntry) : Prop where
  prevLogTerm : req.prevLogTerm = termAt L req.prevLogIndex
  entries : req.entries = L.drop req.prevLogIndex.toNat

/-- The request passes the term and the consistency check. -/
def WouldAccept (term : Int) (log : RaftLog) (req : AppendEntriesRequest) : Prop :=
  term ≤ req.term ∧ log.checkConsistency req.prevLogIndex req.prevLogTerm = true
deriving Decidable

theorem requestFor_eq (h : eng.log.Uncompacted) (term : Int) (now : Rat) (peer : Address) :
    ∃ req, eng.requestFor term now peer = .appendEntriesRequest req ∧ BuiltFrom req eng.log.entries ∧
      req.term = term ∧ req.leaderId = eng.nodeId ∧ req.leaderCommit = eng.log.commitIndex ∧
      req.prevLogIndex = eng.nextIndexFor peer - 1 := by
  unfold requestFor
  rw [h.noSnapshot]
  exact ⟨_, rfl, ⟨h.getTerm _, h.sliceFrom _⟩, rfl, rfl, rfl, rfl⟩

/-- **An accepted request**: the follower ends with the leader's entries or with its own, and
commits no further than the leader says. -/
structure Accepts (eng : Engine) (term : Int) (req : AppendEntriesRequest) (L : List LogEntry)
    (eng' : Engine) (out : Except PyError AppendEntriesResponse) : Prop where
  result : ∃ clock, (∃ i, eng' = (commitTo clock i
      { eng with log := eng.log.merged req.prevLogIndex.toNat req.entries }).1) ∨
    eng' = { eng with log := eng.log.merged req.prevLogIndex.toNat req.entries }
  term_le : term ≤ req.term
  check : eng.log.checkConsistency req.prevLogIndex req.prevLogTerm = true
  nodeId : eng'.nodeId = eng.nodeId
  followers : eng'.followers = eng.followers
  uncompacted : eng'.log.Uncompacted
  entries :
    eng'.log.entries = L ∧ (Conflicts LogEntry.term (eng.log.entries.drop req.prevLogIndex.toNat)
      req.entries ∨ eng.log.entries.length ≤ L.length) ∨
    eng'.log.entries = eng.log.entries ∧ ¬ Conflicts LogEntry.term
      (eng.log.entries.drop req.prevLogIndex.toNat) req.entries ∧
      L.length < eng.log.entries.length
  merged : eng'.log.entries = (eng.log.merged req.prevLogIndex.toNat req.entries).entries
  commitIndex : eng'.log.commitIndex =
    max (eng.log.mergedCommit req.prevLogIndex.toNat req.entries)
      (min req.leaderCommit eng'.log.entries.length)
  calls : ∃ calls, eng'.applyCalls = eng.applyCalls ++ calls ∧
    ∀ call ∈ calls, ∃ k : Nat, eng'.log.entries[k]? = some call.entry ∧
      (k : Int) < eng'.log.commitIndex
  answer : ∀ resp, out = .ok resp → resp =
    { term := max term req.term, followerId := eng.nodeId, success := true,
      matchIndex := eng'.log.entries.length, lastLogIndex := eng'.log.entries.length }

theorem handleAppendEntriesRequest_of_reconcile {req : AppendEntriesRequest} {term : Int}
    {log' : RaftLog} (hterm : ¬ req.term < term)
    (hrec : eng.log.reconcileFollowerEntries req.prevLogIndex req.prevLogTerm req.entries =
      (log', .ok (true, log'.lastIndex))) (clock : Clock) :
    ∃ eng' out, eng.handleAppendEntriesRequest term clock req = (eng', out) ∧
      (req.leaderCommit > log'.commitIndex ∧
          eng' = (commitTo clock (min req.leaderCommit log'.lastIndex) { eng with log := log' }).1 ∨
        ¬ req.leaderCommit > log'.commitIndex ∧ eng' = { eng with log := log' }) ∧
      ∀ resp, out = .ok resp → resp =
        { term := max term req.term, followerId := eng'.nodeId, success := true,
          matchIndex := log'.lastIndex, lastLogIndex := eng'.log.lastIndex } := by
  unfold handleAppendEntriesRequest
  rw [if_neg hterm, hrec]
  dsimp only
  by_cases hlc : req.leaderCommit > log'.commitIndex
  · rw [if_pos ⟨rfl, hlc⟩]
    rcases commitTo clock (min req.leaderCommit log'.lastIndex) { eng with log := log' } with
      ⟨eng₂, out⟩
    cases out with
    | error e => exact ⟨eng₂, _, rfl, Or.inl ⟨hlc, rfl⟩, by simp⟩
    | ok results =>
      refine ⟨eng₂, _, rfl, Or.inl ⟨hlc, rfl⟩, ?_⟩
      rintro resp ⟨⟩
      rfl
  · rw [if_neg (fun hc => hlc hc.2)]
    refine ⟨_, _, rfl, Or.inr ⟨hlc, rfl⟩, ?_⟩
    rintro resp ⟨⟩
    rfl

/-- **What a request does to a follower whose log agrees with the leader's**: a refusal changes
nothing, and is the only answer that is not a success. -/
theorem handleAppendEntriesRequest_cases (h : eng.log.Uncompacted) {L : List LogEntry}
    (hL : ContiguousFrom 1 L) (hagree : Agree eng.log.entries L) {req : AppendEntriesRequest}
    (hreq : BuiltFrom req L) (term : Int) (clock : Clock) :
    (∃ resp, eng.handleAppendEntriesRequest term clock req = (eng, .ok resp) ∧
      resp.success = false ∧ resp.followerId = eng.nodeId) ∨
    Accepts eng term req L (eng.handleAppendEntriesRequest term clock req).1
      (eng.handleAppendEntriesRequest term clock req).2 := by
  by_cases hstale : req.term < term
  · left
    unfold handleAppendEntriesRequest
    rw [if_pos hstale]
    exact ⟨_, rfl, rfl, rfl⟩
  by_cases hcheck : eng.log.checkConsistency req.prevLogIndex req.prevLogTerm = true
  · right
    have hcheck' := hcheck
    rw [hreq.prevLogTerm] at hcheck'
    obtain ⟨hrec, hun, hentries⟩ := RaftLog.reconcile_agree h hL hagree hcheck'
    rw [← hreq.entries, ← hreq.prevLogTerm] at hrec
    rw [← hreq.entries] at hun hentries
    obtain ⟨eng', out, heq, hcommit, hanswer⟩ :=
      handleAppendEntriesRequest_of_reconcile hstale hrec clock
    rw [heq]
    have hlast := hun.lastIndex
    rcases hcommit with ⟨hlc, rfl⟩ | ⟨hlc, rfl⟩
    · have hto : CommitsTo { eng with log := eng.log.merged req.prevLogIndex.toNat req.entries }
          _ _ := commitTo_spec hun clock
        (min req.leaderCommit (eng.log.merged req.prevLogIndex.toNat req.entries).lastIndex)
      refine ⟨⟨clock, Or.inl ⟨_, rfl⟩⟩, by omega, hcheck, hto.nodeId, hto.followers,
        hto.uncompacted hun, ?_, hto.entries, ?_, hto.calls, fun resp hresp => ?_⟩
      · rwa [hto.entries]
      · rw [hto.commitIndex, hto.entries, hlast, min_assoc, min_self]
        rfl
      · rw [hanswer resp hresp, hto.nodeId, (hto.uncompacted hun).lastIndex, hto.entries, hlast]
    · refine ⟨⟨clock, Or.inr rfl⟩, by omega, hcheck, rfl, rfl, hun, hentries, rfl, ?_,
        ⟨[], by simp, by simp⟩, ?_⟩
      · have hle : min req.leaderCommit ((eng.log.merged req.prevLogIndex.toNat
            req.entries).entries.length : Int) ≤
            (eng.log.merged req.prevLogIndex.toNat req.entries).commitIndex := by omega
        exact (max_eq_left hle).symm
      · intro resp hresp
        rw [hanswer resp hresp, hlast]
  · left
    unfold handleAppendEntriesRequest
    rw [if_neg hstale, RaftLog.reconcileFollowerEntries, if_neg hcheck]
    exact ⟨_, rfl, rfl, rfl⟩

theorem handleAppendEntriesRequest_refuses_or_accepts (h : eng.log.Uncompacted) (term : Int)
    (clock : Clock) (req : AppendEntriesRequest) :
    (∃ resp, eng.handleAppendEntriesRequest term clock req = (eng, .ok resp) ∧
      resp.success = false ∧ resp.followerId = eng.nodeId) ∨
    ∀ L, ContiguousFrom 1 L → Agree eng.log.entries L → BuiltFrom req L →
      Accepts eng term req L (eng.handleAppendEntriesRequest term clock req).1
        (eng.handleAppendEntriesRequest term clock req).2 := by
  by_cases hrefuse : ∃ resp, eng.handleAppendEntriesRequest term clock req = (eng, .ok resp) ∧
      resp.success = false ∧ resp.followerId = eng.nodeId
  · exact Or.inl hrefuse
  · exact Or.inr fun L hL hagree hreq =>
      (handleAppendEntriesRequest_cases h hL hagree hreq term clock).resolve_left hrefuse

end RaftReplicationEngine

end MeshWeaver
