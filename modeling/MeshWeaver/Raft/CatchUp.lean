import MeshWeaver.Lib.Run
import MeshWeaver.Raft.LeaderFacts

/-!
# Follower catch-up

One exchange is the request `broadcast_append_entries` builds for a follower, its answer and what the leader makes of
it. A request is accepted as soon as `next_index` is at most one above the part on which the two logs agree, and every
refusal lowers `next_index` (`refusals`). An accepted request is answered unless a command that the follower commits
with it raises: then the entries are stored and the commit index is advanced, and only the next exchange is answered
(`catchesUp_iff`).
-/

namespace MeshWeaver

open Lib

/-! ### The part on which two logs agree -/

namespace RaftLog

variable {old new L : List LogEntry} {log : RaftLog}

theorem agreeing_append (common old new : List LogEntry) :
    agreeing (common ++ old) (common ++ new) = common.length + agreeing old new := by
  induction common with
  | nil => simp
  | cons e common ih =>
    rw [List.cons_append, List.cons_append, agreeing, if_pos rfl, ih, List.length_cons]
    omega

theorem agreeing_le_length (old new : List LogEntry) :
    agreeing old new ≤ old.length ∧ agreeing old new ≤ new.length := by
  induction old generalizing new with
  | nil => simp [agreeing]
  | cons a old ih =>
    cases new with
    | nil => simp [agreeing]
    | cons b new =>
      have hrest := ih new
      rw [agreeing]
      split_ifs
      · simp only [List.length_cons]
        omega
      · omega

theorem getElem?_agreeing {k : Nat} (hk : k < agreeing old new) :
    ∃ a b, old[k]? = some a ∧ new[k]? = some b ∧ a.term = b.term := by
  induction old generalizing new k with
  | nil => simp [agreeing] at hk
  | cons a old ih =>
    cases new with
    | nil => simp [agreeing] at hk
    | cons b new =>
      rw [agreeing] at hk
      split_ifs at hk with hterm
      · cases k with
        | zero => exact ⟨a, b, rfl, rfl, hterm⟩
        | succ k => exact ih (Nat.lt_of_succ_lt_succ hk)
      · omega

theorem le_agreeing_of_take_eq {p : Nat} (h : old.take p = new.take p)
    (hp : p ≤ new.length) : p ≤ agreeing old new := by
  rw [← List.take_append_drop p old, ← List.take_append_drop p new, h, agreeing_append, List.length_take]
  omega

theorem take_eq_of_le_agreeing (h : Agree old new) {p : Nat}
    (hp : p ≤ agreeing old new) : old.take p = new.take p := by
  cases p with
  | zero => rfl
  | succ k =>
    obtain ⟨a, b, ha, hb, hterm⟩ := getElem?_agreeing hp
    exact h k a b ha hb hterm

theorem checkConsistency_of_le_agreeing (h : log.Uncompacted) {prev : Int}
    (hprev : 0 ≤ prev) (hle : prev ≤ agreeing log.entries L) : log.checkConsistency prev (termAt L prev) = true := by
  refine h.checkConsistency_iff.mpr ?_
  by_cases h0 : prev = 0
  · exact Or.inl h0
  · have hlt : (prev - 1).toNat < agreeing log.entries L := by omega
    obtain ⟨a, b, ha, hb, hterm⟩ := getElem?_agreeing hlt
    refine Or.inr ⟨by omega, a, ha, ?_⟩
    rw [hterm, termAt, if_neg (by omega), hb]
    rfl

/-- **When a request is accepted**: its previous index lies in the part that agrees. -/
theorem checkConsistency_iff_le_agreeing (h : log.Uncompacted)
    (hagree : Agree log.entries L) (hterms : ∀ e ∈ log.entries, 1 ≤ e.term) {prev : Int} (hprev : 0 ≤ prev) :
    log.checkConsistency prev (termAt L prev) = true ↔ prev ≤ agreeing log.entries L := by
  refine ⟨fun hcheck => ?_, checkConsistency_of_le_agreeing h hprev⟩
  rcases h.checkConsistency_iff.mp hcheck with h0 | ⟨hpos, e, he, hterm⟩
  · omega
  · -- a term that is not 0 is that of an entry the leader has
    have hone := hterms e (List.mem_of_getElem? he)
    have hreach : prev.toNat ≤ L.length := by
      by_contra hbeyond
      rw [hterm, termAt, if_neg (by omega), List.getElem?_eq_none (by omega)] at hone
      exact absurd hone (by decide)
    have hle := le_agreeing_of_take_eq (take_prev_eq h hagree hcheck hreach) hreach
    omega

theorem mergedCommit_drop (h : log.Uncompacted) (hagree : Agree log.entries L) {p : Nat}
    (hp : p ≤ agreeing log.entries L) : log.mergedCommit p (L.drop p) = log.mergedCommit 0 L := by
  have htake := take_eq_of_le_agreeing hagree hp
  have hle := (agreeing_le_length log.entries L).2
  have hsplit : log.entries = L.take p ++ log.entries.drop p := by rw [← htake, List.take_append_drop]
  have hcount := agreeing_append (L.take p) (log.entries.drop p) (L.drop p)
  have hconflicts := conflicts_append LogEntry.term (L.take p) (log.entries.drop p) (L.drop p)
  rw [← hsplit, List.take_append_drop] at hcount hconflicts
  rw [List.length_take, min_eq_left (by omega)] at hcount
  rw [mergedCommit, mergedCommit, List.drop_zero, hcount, h.noSnapshot]
  simp only [hconflicts]
  push_cast
  simp only [zero_add]

theorem isPrefix_merged (hagree : Agree log.entries L) {p : Nat}
    (hp : p ≤ agreeing log.entries L) : L <+: (log.merged p (L.drop p)).entries := by
  have htake := take_eq_of_le_agreeing hagree hp
  have hmerged : (log.merged p (L.drop p)).entries =
      L.take p ++ mergeBy LogEntry.term (log.entries.drop p) (L.drop p) := by rw [merged, htake]
  rw [hmerged]
  conv_lhs => rw [← List.take_append_drop p L]
  exact (List.prefix_append_right_inj _).mpr (isPrefix_mergeBy (hagree.drop p))

theorem getUnappliedEntries_of_isPrefix (h : log.Uncompacted) {L : RaftLog} (hL : L.Uncompacted)
    (hcut : L.entries <+: log.entries) (hle : L.commitIndex ≤ L.lastIndex) :
    ({ log with commitIndex := L.commitIndex } : RaftLog).getUnappliedEntries =
      ({ log with entries := L.entries, commitIndex := L.commitIndex } : RaftLog).getUnappliedEntries := by
  unfold getUnappliedEntries
  dsimp only
  split_ifs
  · rfl
  · refine List.filterMap_congr fun i hi => ?_
    rw [RaftReplicationEngine.mem_intRange] at hi
    rw [hL.lastIndex] at hle
    rw [getEntry_eq, getEntry_eq, h.noSnapshot]
    split_ifs with hpos
    · rfl
    · have hlt : (i - 0 - 1).toNat < L.entries.length := by omega
      rw [List.getElem?_eq_getElem hlt, getElem?_of_isPrefix hcut (List.getElem?_eq_getElem hlt)]

end RaftLog

namespace RaftReplicationEngine

variable {leader follower : Engine} {clock : Clock} {term : Int} {peer : Address} {nextIndex : Int} {s : Pair}
  {x : Exchange} {xs : Nat → Exchange}

/-! ### Accepted requests -/

def appliesCleanly (clock : Clock) : List LogEntry → ReplicatedStateMachine → Bool
  | [], _ => true
  | entry :: rest, sm =>
    match sm.applyCommand clock entry with
    | (sm', .ok _) => appliesCleanly clock rest sm'
    | (_, .error _) => false

theorem applyLoop_isOk (es : List LogEntry) (results : List (Int × CommandResult)) (eng : Engine) :
    (applyLoop clock es results eng).2.isOk = appliesCleanly clock es eng.stateMachine := by
  induction es generalizing results eng with
  | nil => rfl
  | cons entry rest ih =>
    obtain ⟨sm, out, happ, hsm, hout, -⟩ := applyOne_eq clock entry eng
    rw [applyLoop, appliesCleanly, happ]
    rcases hone : applyOne clock entry eng with ⟨eng₁, res⟩
    rw [hone] at hsm hout
    subst hsm hout
    cases res with
    | error e => rfl
    | ok v => exact ih _ eng₁

/-- What the follower has yet to apply once it has the leader's entries and commit index. -/
def newlyCommitted (leader follower : Engine) : List LogEntry :=
  ({ follower.log with entries := leader.log.entries, commitIndex := leader.log.commitIndex } :
    RaftLog).getUnappliedEntries

/-- The follower has nothing to commit, or can apply all of it. -/
def CommitsCleanly (clock : Clock) (leader follower : Engine) : Prop :=
  leader.log.commitIndex ≤ follower.log.mergedCommit 0 leader.log.entries ∨
    appliesCleanly clock (newlyCommitted leader follower) follower.stateMachine = true
deriving Decidable

theorem commitTo_isOk (hL : leader.log.Uncompacted) (hcommit : leader.log.commitIndex ≤ leader.log.lastIndex)
    (hF : follower.log.Uncompacted) (hcut : leader.log.entries <+: follower.log.entries)
    (hahead : follower.log.commitIndex < leader.log.commitIndex) (clock : Clock) :
    (commitTo clock (min leader.log.commitIndex follower.log.lastIndex) follower).2.isOk =
      appliesCleanly clock (newlyCommitted leader follower) follower.stateMachine := by
  have hlength := hcut.length_le
  have hlast := hF.lastIndex
  have hreach := hL.lastIndex
  have hadvance : follower.log.advanceCommitIndex (min leader.log.commitIndex follower.log.lastIndex) =
      { follower.log with commitIndex := leader.log.commitIndex } := by
    rw [RaftLog.advanceCommitIndex_eq]
    congr 1
    omega
  rw [commitTo, applyCommittedEntries, applyLoop_isOk, newlyCommitted, hadvance,
    ← RaftLog.getUnappliedEntries_of_isPrefix hF hL hcut hcommit]

/-- **An accepted request** leaves the leader's log at the beginning of the follower's, committed as far
as the leader says, and is answered unless a command raises. -/
theorem accepted_spec (hL : leader.log.Uncompacted) (hcommit : leader.log.commitIndex ≤ leader.log.lastIndex)
    (hF : follower.log.Uncompacted) (hagree : Agree follower.log.entries leader.log.entries)
    {req : AppendEntriesRequest} (hreq : BuiltFrom req leader.log.entries)
    (hlc : req.leaderCommit = leader.log.commitIndex) {term : Int} (hterm : term ≤ req.term)
    (hprev : 0 ≤ req.prevLogIndex)
    (hle : req.prevLogIndex ≤ RaftLog.agreeing follower.log.entries leader.log.entries) (clock : Clock) :
    ∃ eng out, follower.handleAppendEntriesRequest term clock req = (eng, out) ∧ eng.log.Uncompacted ∧
      leader.log.entries <+: eng.log.entries ∧ leader.log.commitIndex ≤ eng.log.commitIndex ∧
      (CommitsCleanly clock leader follower → ∃ resp, out = .ok resp ∧ resp.success = true) ∧
      (¬ CommitsCleanly clock leader follower → ∃ e, out = .error e) := by
  have hp : req.prevLogIndex.toNat ≤ RaftLog.agreeing follower.log.entries leader.log.entries := by omega
  have hcheck := RaftLog.checkConsistency_of_le_agreeing hF hprev hle
  obtain ⟨hrec, hun, -⟩ := RaftLog.reconcile_agree hF hL.numbered hagree hcheck
  have hcut := RaftLog.isPrefix_merged hagree hp
  have hkept := RaftLog.mergedCommit_drop hF hagree hp
  rw [← hreq.prevLogTerm, ← hreq.entries] at hrec
  rw [← hreq.entries] at hun hcut hkept
  unfold handleAppendEntriesRequest CommitsCleanly
  rw [if_neg (by omega), hrec, hlc]
  -- the engine with the entries of the request in its log
  set stored : Engine := { follower with log := follower.log.merged req.prevLogIndex.toNat req.entries }
  replace hun : stored.log.Uncompacted := hun
  replace hcut : leader.log.entries <+: stored.log.entries := hcut
  have hindex : stored.log.commitIndex = follower.log.mergedCommit 0 leader.log.entries := hkept
  change ∃ eng out, (if true = true ∧ leader.log.commitIndex > stored.log.commitIndex then _ else _) = _ ∧ _
  by_cases hahead : stored.log.commitIndex < leader.log.commitIndex
  · have hok := commitTo_isOk hL hcommit hun hcut hahead clock
    have hspec := commitTo_spec hun clock (min leader.log.commitIndex stored.log.lastIndex)
    have hraised : leader.log.commitIndex ≤
        (commitTo clock (min leader.log.commitIndex stored.log.lastIndex) stored).1.log.commitIndex := by
      have hlength := hcut.length_le
      have hlast := hun.lastIndex
      have hreach := hL.lastIndex
      rw [hspec.commitIndex]
      omega
    have hcut' := hspec.entries ▸ hcut
    have hun' := hspec.uncompacted hun
    rw [if_pos ⟨rfl, hahead⟩]
    change _ = appliesCleanly clock (newlyCommitted leader follower) follower.stateMachine at hok
    rw [← hok, ← hindex, or_iff_right (not_le.mpr hahead)]
    generalize commitTo clock (min leader.log.commitIndex stored.log.lastIndex) stored = committed
      at hraised hcut' hun' ⊢
    obtain ⟨eng, e | results⟩ := committed
    · exact ⟨_, _, rfl, hun', hcut', hraised, fun hclean => absurd hclean Bool.false_ne_true, fun _ => ⟨e, rfl⟩⟩
    · exact ⟨_, _, rfl, hun', hcut', hraised, fun _ => ⟨_, rfl, rfl⟩, fun hraise => (hraise rfl).elim⟩
  · rw [if_neg fun hc => hahead hc.2]
    refine ⟨_, _, rfl, hun, hcut, not_lt.mp hahead, fun _ => ⟨_, rfl, rfl⟩, fun hraise => ?_⟩
    exact (hraise (Or.inl (hindex ▸ not_lt.mp hahead))).elim

/-! ### Refused requests -/

theorem handleAppendEntriesRequest_refused {req : AppendEntriesRequest} {term : Int} (hterm : term ≤ req.term)
    (hcheck : follower.log.checkConsistency req.prevLogIndex req.prevLogTerm = false) (clock : Clock) :
    ∃ resp, follower.handleAppendEntriesRequest term clock req = (follower, .ok resp) ∧
      resp.success = false ∧ resp.lastLogIndex = follower.log.lastIndex := by
  unfold handleAppendEntriesRequest
  rw [if_neg (by omega), RaftLog.reconcileFollowerEntries, hcheck]
  exact ⟨_, rfl, rfl, rfl⟩

theorem get?_recordAnswer_of_not_mem (resp : AppendEntriesResponse) {key : PeerKey} (keys : List PeerKey)
    (eng : Engine) (hkey : key ∉ keys) : (eng.recordAnswer resp keys).followers.get? key =
      eng.followers.get? key := by
  induction keys generalizing eng with
  | nil => rfl
  | cons x keys ih =>
    rw [List.mem_cons, not_or] at hkey
    refine (ih _ hkey.2).trans ?_
    rw [get?_synchronizeFollowerProgress, if_neg hkey.1]

theorem get?_recordAnswer (resp : AppendEntriesResponse) {key : PeerKey} {p : FollowerProgress}
    (keys : List PeerKey) (eng : Engine) (hnodup : keys.Nodup) (hkey : key ∈ keys)
    (hp : eng.followers.get? key = some p) : (eng.recordAnswer resp keys).followers.get? key =
      some (p.synchronize resp.success resp.matchIndex resp.lastLogIndex) := by
  induction keys generalizing eng with
  | nil => cases hkey
  | cons x keys ih =>
    obtain ⟨hx, hnodup⟩ := List.nodup_cons.mp hnodup
    rcases List.mem_cons.mp hkey with rfl | hrest
    · refine (get?_recordAnswer_of_not_mem resp keys _ hx).trans ?_
      rw [get?_synchronizeFollowerProgress, if_pos rfl, hp, Option.getD_some]
    · refine ih _ hnodup hrest ?_
      rwa [get?_synchronizeFollowerProgress, if_neg (by rintro rfl; exact hx hrest)]

/-! ### Exchanges -/

/-- What the callbacks return during one exchange. -/
structure Exchange where
  now : Rat
  followerTerm : Int
  followerClock : Clock
  peers : List Address
  leaderClock : Clock

structure Pair where
  leader : Engine
  follower : Engine

/-- One exchange of a leader with the follower it knows as `peer`, and the answer. An exception in a
handler is logged by `datagram_received`, and nothing is answered. -/
def Pair.exchange (term : Int) (peer : Address) (x : Exchange) (s : Pair) :
    Pair × Option AppendEntriesResponse :=
  match s.leader.requestFor term x.now peer with
  | .appendEntriesRequest req =>
    match s.follower.handleAppendEntriesRequest x.followerTerm x.followerClock req with
    | (follower, .error _) => (⟨s.leader, follower⟩, none)
    | (follower, .ok resp) =>
      (⟨(s.leader.handleAppendEntriesResponse term .leader x.peers x.leaderClock resp follower.nodeId
        (some peer) 0).1, follower⟩, some resp)
  | _ => (s, none)

def Pair.after (term : Int) (peer : Address) (xs : Nat → Exchange) (s : Pair) : Nat → Pair
  | 0 => s
  | n + 1 => ((s.after term peer xs n).exchange term peer (xs n)).1

/-- The answer to the request of exchange `n`, counted from 0. -/
def Pair.answer (term : Int) (peer : Address) (xs : Nat → Exchange) (s : Pair) (n : Nat) :
    Option AppendEntriesResponse :=
  ((s.after term peer xs n).exchange term peer (xs n)).2

/-- **Catching up within `bound` exchanges**: one of them is answered with success, and then the
follower's log agrees with the leader's at every index the leader has. -/
def Pair.CatchesUp (term : Int) (peer : Address) (xs : Nat → Exchange) (s : Pair) (bound : Int) : Prop :=
  ∃ n : Nat, n < bound ∧ (∃ resp, s.answer term peer xs n = some resp ∧ resp.success = true) ∧
    ∀ i, 1 ≤ i → i ≤ s.leader.log.lastIndex →
      (s.after term peer xs (n + 1)).follower.log.getEntry i = s.leader.log.getEntry i

/-- How many requests are refused before one is accepted: the first refusal brings `next_index` down to
the end of the follower's log, and each further one lowers it by one. -/
def refusals (old new : List LogEntry) (nextIndex : Int) : Nat :=
  (min (nextIndex - 1) (old.length + 1) - RaftLog.agreeing old new).toNat

section
variable (old new : List LogEntry) (nextIndex : Int)

theorem refusals_pos_iff : 0 < refusals old new nextIndex ↔ RaftLog.agreeing old new + 1 < nextIndex := by
  have hle := (RaftLog.agreeing_le_length old new).1
  unfold refusals
  rcases le_total (nextIndex - 1) (old.length + 1) with h | h
  · omega
  · omega

variable {nextIndex} in
theorem refusals_succ (hlt : RaftLog.agreeing old new + 1 < nextIndex) :
    refusals old new (min (nextIndex - 1) (old.length + 1)) + 1 = refusals old new nextIndex := by
  have hle := (RaftLog.agreeing_le_length old new).1
  unfold refusals
  rw [min_eq_left (by omega)]
  rcases le_total (nextIndex - 1) (old.length + 1) with h | h
  · rw [min_eq_left h]
    omega
  · rw [min_eq_right h]
    omega

variable {nextIndex} in
theorem refusals_lt (hone : 1 ≤ nextIndex) : refusals old new nextIndex < nextIndex := by
  have hmin := min_le_left (nextIndex - 1) (old.length + 1 : Int)
  unfold refusals
  omega

end

/-- A leader and a follower that can catch up, with what the leader has on record. -/
structure Pair.Ready (peer : Address) (nextIndex : Int) (s : Pair) : Prop where
  leader : s.leader.log.Uncompacted
  commit_le : s.leader.log.commitIndex ≤ s.leader.log.lastIndex
  follower : s.follower.log.Uncompacted
  agree : Agree s.follower.log.entries s.leader.log.entries
  progress : ∃ p, s.leader.followers.get? (.addr peer) = some p ∧ p.nextIndex = nextIndex
  one_le : 1 ≤ nextIndex

theorem Pair.Ready.nextIndexFor (h : s.Ready peer nextIndex) : s.leader.nextIndexFor peer = nextIndex := by
  obtain ⟨p, hp, hnext⟩ := h.progress
  rwa [RaftReplicationEngine.nextIndexFor, hp]

section exchange

variable (h : s.Ready peer nextIndex) (hterm : x.followerTerm ≤ term)
include h hterm

theorem Pair.exchange_accepted
    (hle : nextIndex ≤ RaftLog.agreeing s.follower.log.entries s.leader.log.entries + 1) :
    let r := s.exchange term peer x
    r.1.follower.log.Uncompacted ∧ s.leader.log.entries <+: r.1.follower.log.entries ∧
      s.leader.log.commitIndex ≤ r.1.follower.log.commitIndex ∧
      (CommitsCleanly x.followerClock s.leader s.follower → ∃ resp, r.2 = some resp ∧ resp.success = true) ∧
      (¬ CommitsCleanly x.followerClock s.leader s.follower → r.2 = none ∧ r.1.leader = s.leader) := by
  obtain ⟨req, hreq, hbuilt, hrterm, -, hlc, hprev⟩ := requestFor_eq h.leader term x.now peer
  rw [h.nextIndexFor] at hprev
  have hone := h.one_le
  obtain ⟨eng, out, hhandle, hun, hcut, hcommit, hclean, hraise⟩ :=
    accepted_spec h.leader h.commit_le h.follower h.agree hbuilt hlc
      (show x.followerTerm ≤ req.term by omega) (by omega) (by omega) x.followerClock
  rw [Pair.exchange, hreq]
  dsimp only
  rw [hhandle]
  cases out with
  | error e => exact ⟨hun, hcut, hcommit, fun hc => by simpa using hclean hc, fun _ => ⟨rfl, rfl⟩⟩
  | ok resp =>
    refine ⟨hun, hcut, hcommit, fun hc => ?_, fun hc => by simpa using hraise hc⟩
    obtain ⟨resp', heq, hsuccess⟩ := hclean hc
    exact ⟨resp, rfl, Except.ok.inj heq ▸ hsuccess⟩

theorem Pair.exchange_stored
    (hcut : s.leader.log.entries <+: s.follower.log.entries)
    (hcommit : s.leader.log.commitIndex ≤ s.follower.log.commitIndex)
    (hle : nextIndex ≤ s.leader.log.entries.length + 1) :
    let r := s.exchange term peer x
    r.1.follower.log.Uncompacted ∧ s.leader.log.entries <+: r.1.follower.log.entries ∧
      ∃ resp, r.2 = some resp ∧ resp.success = true := by
  have htake : s.follower.log.entries.take s.leader.log.entries.length =
      s.leader.log.entries.take s.leader.log.entries.length := by
    rw [← List.prefix_iff_eq_take.mp hcut, List.take_length]
  have hagreeing := RaftLog.le_agreeing_of_take_eq htake le_rfl
  obtain ⟨hun, hcut', -, hclean, -⟩ := Pair.exchange_accepted h hterm (by omega)
  refine ⟨hun, hcut', hclean (Or.inl ?_)⟩
  have hno := not_conflicts_of_common (List.prefix_refl _) hcut 0
  rw [List.drop_zero, List.drop_zero] at hno
  rwa [RaftLog.mergedCommit, List.drop_zero, if_neg hno]

theorem Pair.exchange_refused
    (hterms : ∀ e ∈ s.follower.log.entries, 1 ≤ e.term)
    (hlt : RaftLog.agreeing s.follower.log.entries s.leader.log.entries + 1 < nextIndex) :
    let r := s.exchange term peer x
    (∃ resp, r.2 = some resp ∧ resp.success = false) ∧ r.1.follower = s.follower ∧
      r.1.leader.log = s.leader.log ∧
      r.1.Ready peer (min (nextIndex - 1) (s.follower.log.entries.length + 1)) := by
  obtain ⟨req, hreq, hbuilt, hrterm, -, -, hprev⟩ := requestFor_eq h.leader term x.now peer
  obtain ⟨p, hp, hnext⟩ := h.progress
  rw [h.nextIndexFor] at hprev
  have hcheck : s.follower.log.checkConsistency req.prevLogIndex req.prevLogTerm = false := by
    rw [hbuilt.prevLogTerm, Bool.eq_false_iff, ne_eq,
      RaftLog.checkConsistency_iff_le_agreeing h.follower h.agree hterms (by omega)]
    omega
  obtain ⟨resp, hhandle, hfail, hlast⟩ := handleAppendEntriesRequest_refused
    (show x.followerTerm ≤ req.term by omega) hcheck x.followerClock
  have hrecord := get?_recordAnswer resp (followerKeys resp.followerId s.follower.nodeId (some peer) 0)
    s.leader (List.nodup_dedup _) (List.mem_dedup.mpr (List.mem_append_right _ List.mem_cons_self)) hp
  obtain ⟨hlog, -⟩ := recordAnswer_kept resp (followerKeys resp.followerId s.follower.nodeId (some peer) 0)
    s.leader
  rw [Pair.exchange, hreq]
  dsimp only
  rw [hhandle]
  dsimp only
  rw [handleAppendEntriesResponse, hfail]
  refine ⟨⟨resp, rfl, hfail⟩, rfl, hlog, ?_, ?_, h.follower, ?_, ⟨_, hrecord, ?_⟩, by omega⟩
  · exact hlog ▸ h.leader
  · exact hlog ▸ h.commit_le
  · exact hlog ▸ h.agree
  · rw [hfail, hlast, h.follower.lastIndex, ← hnext]
    exact max_eq_right (by omega)

end exchange

section refused

variable (h : s.Ready peer nextIndex) (hterm : ∀ n, (xs n).followerTerm ≤ term)
  (hterms : ∀ e ∈ s.follower.log.entries, 1 ≤ e.term)
include h hterm hterms

/-- **While requests are refused** nothing moves but `next_index`. -/
theorem Pair.after_refusals (n : Nat)
    (hn : n ≤ refusals s.follower.log.entries s.leader.log.entries nextIndex) :
    (s.after term peer xs n).follower = s.follower ∧ (s.after term peer xs n).leader.log = s.leader.log ∧
      ∃ next, (s.after term peer xs n).Ready peer next ∧
        refusals s.follower.log.entries s.leader.log.entries next + n =
          refusals s.follower.log.entries s.leader.log.entries nextIndex := by
  induction n with
  | zero => exact ⟨rfl, rfl, nextIndex, h, rfl⟩
  | succ n ih =>
    obtain ⟨hfollower, hleader, next, hready, hleft⟩ := ih (by omega)
    have hlt := (refusals_pos_iff s.follower.log.entries s.leader.log.entries next).mp (by omega)
    obtain ⟨-, hfollower', hleader', hready'⟩ := Pair.exchange_refused hready
      (hterm n) (hfollower ▸ hterms) (by rw [hfollower, hleader]; exact hlt)
    refine ⟨hfollower'.trans hfollower, hleader'.trans hleader, _, hready', ?_⟩
    rw [hfollower, ← hleft, ← refusals_succ _ _ hlt]
    omega

theorem Pair.answer_refused {n : Nat}
    (hn : n < refusals s.follower.log.entries s.leader.log.entries nextIndex) :
    ∃ resp, s.answer term peer xs n = some resp ∧ resp.success = false := by
  obtain ⟨hfollower, hleader, next, hready, hleft⟩ := Pair.after_refusals h hterm hterms n hn.le
  refine (Pair.exchange_refused hready (hterm n) (hfollower ▸ hterms) ?_).1
  rw [hfollower, hleader]
  exact (refusals_pos_iff _ _ next).mp (by omega)

end refused

theorem getEntry_of_isPrefix {log L : RaftLog} (h : log.Uncompacted) (hL : L.Uncompacted)
    (hcut : L.entries <+: log.entries) {i : Int} (hone : 1 ≤ i) (hle : i ≤ L.lastIndex) :
    log.getEntry i = L.getEntry i := by
  rw [hL.lastIndex] at hle
  have hlt : (i - 1).toNat < L.entries.length := by omega
  rw [h.getEntry hone, hL.getEntry hone, List.getElem?_eq_getElem hlt]
  exact getElem?_of_isPrefix hcut (List.getElem?_eq_getElem hlt)

/-- **When a follower catches up within `next_index` exchanges**: if no command that it commits with the
accepted request raises, or an exchange is left after that request. -/
theorem Pair.catchesUp_iff (term : Int) (peer : Address) (xs : Nat → Exchange) (s : Pair) (nextIndex : Int)
    (h : s.Ready peer nextIndex) (hterms : ∀ e ∈ s.follower.log.entries, 1 ≤ e.term)
    (hterm : ∀ n, (xs n).followerTerm ≤ term) :
    s.CatchesUp term peer xs nextIndex ↔
      CommitsCleanly (xs (refusals s.follower.log.entries s.leader.log.entries nextIndex)).followerClock
        s.leader s.follower ∨
      refusals s.follower.log.entries s.leader.log.entries nextIndex + 1 < nextIndex := by
  have hbound := refusals_lt s.follower.log.entries s.leader.log.entries h.one_le
  obtain ⟨hfollower, hleader, next, hready, hleft⟩ := Pair.after_refusals h hterm hterms _ le_rfl
  have hrefused := fun n => Pair.answer_refused h hterm hterms (n := n)
  have hnext : next ≤ RaftLog.agreeing s.follower.log.entries s.leader.log.entries + 1 :=
    not_lt.mp fun hlt => by have := (refusals_pos_iff _ _ next).mpr hlt; omega
  clear hleft
  generalize refusals s.follower.log.entries s.leader.log.entries nextIndex = f at *
  obtain ⟨hun, hcut, hcommit, hclean, hraise⟩ := Pair.exchange_accepted hready (hterm f)
    (by rw [hfollower, hleader]; exact hnext)
  have hsame : CommitsCleanly (xs f).followerClock (s.after term peer xs f).leader
      (s.after term peer xs f).follower ↔ CommitsCleanly (xs f).followerClock s.leader s.follower := by
    unfold CommitsCleanly newlyCommitted
    rw [hfollower, hleader]
  rw [hsame] at hclean hraise
  rw [hleader] at hcut hcommit
  by_cases hc : CommitsCleanly (xs f).followerClock s.leader s.follower
  · refine iff_of_true ⟨f, hbound, hclean hc, fun i hone hle => ?_⟩ (Or.inl hc)
    exact getEntry_of_isPrefix hun h.leader hcut hone hle
  · obtain ⟨hnone, hkept⟩ := hraise hc
    rw [or_iff_right hc]
    constructor
    · rintro ⟨n, hn, ⟨resp, hresp, hsuccess⟩, -⟩
      -- up to this exchange the answers are refusals, and this one is not answered
      by_contra hlast
      rcases (show n < f ∨ n = f by omega) with hlt | rfl
      · obtain ⟨resp', hresp', hfail⟩ := hrefused n hlt
        rw [hresp, Option.some.injEq] at hresp'
        rw [hresp', hfail] at hsuccess
        exact Bool.false_ne_true hsuccess
      · rw [Pair.answer, hnone] at hresp
        cases hresp
    · intro hleft
      have hreach := (RaftLog.agreeing_le_length s.follower.log.entries s.leader.log.entries).2
      have hstored : (s.after term peer xs (f + 1)).Ready peer next := by
        obtain ⟨hL, hle, -, -, hprogress, hone⟩ := hready
        refine ⟨?_, ?_, hun, ?_, ?_, hone⟩ <;> rw [Pair.after, hkept]
        · exact hL
        · exact hle
        · rw [hleader]
          exact (Agree.of_isPrefix hcut).symm
        · exact hprogress
      obtain ⟨hun', hcut', hsuccess⟩ := Pair.exchange_stored hstored (hterm (f + 1))
        (by rw [Pair.after, hkept, hleader]; exact hcut)
        (by rw [Pair.after, hkept, hleader]; exact hcommit)
        (by rw [Pair.after, hkept, hleader]; omega)
      refine ⟨f + 1, by push_cast; omega, hsuccess, fun i hone hle => ?_⟩
      rw [Pair.after, hkept, hleader] at hcut'
      exact getEntry_of_isPrefix hun' h.leader hcut' hone hle

def anExchange : Exchange := ⟨1, 1, fun _ => 0, [⟨"b", 7000⟩, ⟨"c", 7000⟩], fun _ => 0⟩

def diverged : Pair :=
  ⟨{ init "a" with
      log := ⟨[writeEntry 1 1 "x", writeEntry 2 2 "y"], 1, 1, 0, 0⟩
      followers := Dict.empty.insert (.addr ⟨"b", 7000⟩) ⟨.addr ⟨"b", 7000⟩, 0, 7⟩ },
    { init "b" with log := ⟨[writeEntry 1 1 "x", writeEntry 2 1 "z", writeEntry 3 1 "z"], 0, 0, 0, 0⟩ }⟩

theorem catchesUp_diverged : diverged.CatchesUp 2 ⟨"b", 7000⟩ (fun _ => anExchange) 7 := by
  have hleader : ContiguousFrom 1 [writeEntry 1 1 "x", writeEntry 2 2 "y"] :=
    ContiguousFrom.cons_iff.mpr ⟨rfl, ContiguousFrom.singleton rfl⟩
  have hfollower : ContiguousFrom 1 [writeEntry 1 1 "x", writeEntry 2 1 "z", writeEntry 3 1 "z"] :=
    ContiguousFrom.cons_iff.mpr ⟨rfl, ContiguousFrom.cons_iff.mpr ⟨rfl, ContiguousFrom.singleton rfl⟩⟩
  have hagree : Agree diverged.follower.log.entries diverged.leader.log.entries := by
    intro k e f he hf hterm
    rcases k with _ | _ | k
    · rfl
    · cases he
      cases hf
      exact absurd hterm (by decide)
    · cases hf
  refine (Pair.catchesUp_iff 2 ⟨"b", 7000⟩ _ diverged 7
    ⟨⟨rfl, hleader⟩, by decide, ⟨rfl, hfollower⟩, hagree, ⟨_, rfl, rfl⟩, by decide⟩ (by decide)
    fun _ => by decide).mpr (Or.inl (by decide))

/-- The leader has heard from one peer, proposes an increment by something that is not a number, and
hears from the other peer that it is stored. -/
def brokenIncrement : List NodeEvent :=
  [.handle ⟨1, .leader⟩ anExchange.peers (.receive ⟨⟨"b", 7000⟩, ⟨"a", 7000⟩, "b", .appendEntriesResponse
      { term := 1, followerId := "b", success := true, matchIndex := 0, lastLogIndex := 0 }⟩ 1 fun _ => 0),
    .handle ⟨1, .leader⟩ anExchange.peers (.propose { writeCommand "x" with
      commandType := .increment, extraData := [("delta", .str "one")] } 1 fun _ => 0),
    .handle ⟨1, .leader⟩ anExchange.peers (.receive ⟨⟨"c", 7000⟩, ⟨"a", 7000⟩, "c", .appendEntriesResponse
      { term := 1, followerId := "c", success := true, matchIndex := 1, lastLogIndex := 1 }⟩ 1 fun _ => 0)]

/-- **A committed command that raises is not answered**: `next_index` is 1, and the first exchange
remains without an answer although the follower has stored and committed the entry. -/
theorem not_catchesUp_brokenIncrement :
    (Pair.mk (run nodeStep (init "a") brokenIncrement) (init "b")).Ready ⟨"b", 7000⟩ 1 ∧
      ¬ (Pair.mk (run nodeStep (init "a") brokenIncrement) (init "b")).CatchesUp 1 ⟨"b", 7000⟩
        (fun _ => anExchange) 1 := by
  refine ⟨⟨⟨rfl, ContiguousFrom.singleton rfl⟩, by decide, .empty, Agree.of_isPrefix List.nil_prefix,
    ⟨_, rfl, rfl⟩, le_rfl⟩, ?_⟩
  rintro ⟨n, hn, ⟨resp, hresp, -⟩, -⟩
  obtain rfl : n = 0 := by omega
  cases hresp

end RaftReplicationEngine

end MeshWeaver
