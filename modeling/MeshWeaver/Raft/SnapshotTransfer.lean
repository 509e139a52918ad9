import MeshWeaver.Raft.Tracking

/-!
# Snapshot transfer

The snapshot in an `InstallSnapshotRequest` is labelled with the compaction marker, but its data is exported from the
live state machine. When the two agree at the time the request is built (`Current`), the follower ends up with the
leader's state however the later entries reach it (`snapshot_transfer_faithful`). When the leader has applied entries
above the marker, the follower applies them a second time (`snapshot_transfer_counts_twice`).
-/

namespace MeshWeaver

open Lib
open ReplicatedStateMachine (Stamped importState_exportState)

namespace RaftReplicationEngine

variable {eng : Engine} {q : Sequel} {c : Int} {now : Rat} {peer : Address} {req : InstallSnapshotRequest}

structure Transfer where
  leader : Engine
  follower : Engine
  sent : List RaftMsg

/-- The leader takes an event, builds a request in its present state, or a request built earlier
reaches the follower. The requests that `propose_command` and the response handlers broadcast are
built in the state they leave behind: they are `send`s that follow the event. -/
inductive TransferEvent where
  | leader (ev : NodeEvent)
  | send (term : Int) (now : Rat) (peer : Address)
  | deliver (k : Nat) (term : Int) (clock : Clock)

def Transfer.step (t : Transfer) : TransferEvent → Transfer
  | .leader ev => { t with leader := nodeStep t.leader ev }
  | .send term now peer => { t with sent := t.sent ++ [t.leader.requestFor term now peer] }
  | .deliver k term clock =>
    match t.sent[k]? with
    | some (.appendEntriesRequest req) =>
      { t with follower := (t.follower.handleAppendEntriesRequest term clock req).1 }
    | some (.installSnapshotRequest req) =>
      { t with follower := (t.follower.handleInstallSnapshotRequest term req).1 }
    | _ => t

def NodeEvent.proposed? (eng : Engine) : NodeEvent → Option LogEntry
  | .handle view _ (.propose command now _) => some (eng.entryFor view.term command now)
  | _ => none

/-- `broadcast_append_entries` sends the peer a snapshot. -/
def NeedsSnapshot (eng : Engine) (peer : Address) : Prop :=
  eng.log.snapshotLastIndex > 0 ∧ eng.nextIndexFor peer ≤ eng.log.snapshotLastIndex
deriving Decidable

/-- The log is compacted up to what has been applied, which is all that is committed, and no lease
has run out. -/
def Current (eng : Engine) (now : Rat) : Prop :=
  eng.log.snapshotLastIndex = eng.log.lastApplied ∧ eng.log.lastApplied = eng.log.commitIndex ∧
    ∀ lock ∈ eng.stateMachine.locks.values, lock.isExpired now = false

/-- The leader is handed no request and proposes commands with timestamps; a snapshot is built when
it is current, and installed when it reaches as far as the follower has applied. -/
def Transfer.Sound (t : Transfer) : TransferEvent → Prop
  | .leader ev => ev.request? = none ∧ ev.snapshot? = none ∧ ∀ e ∈ ev.proposed? t.leader, Stamped e
  | .send _ now peer => t.leader.NeedsSnapshot peer → t.leader.Current now
  | .deliver k term _ =>
    match t.sent[k]? with
    | some (.installSnapshotRequest req) =>
      term ≤ req.term → t.follower.log.lastApplied ≤ req.lastIncludedIndex
    | _ => True

/-! ### The leader -/

/-- The leader holds the whole sequel and has applied what it has committed. -/
structure Leads (q : Sequel) (eng : Engine) : Prop where
  tracks : Tracks q eng
  whole : eng.log.lastIndex = q.start + q.entries.length
  applied : eng.log.lastApplied = eng.log.commitIndex

section leader
variable (h : Leads q eng)
include h

theorem Leads.of_sameCore {eng' : Engine} (hsame : SameCore eng eng') : Leads q eng' :=
  ⟨h.tracks.of_sameCore hsame, by rw [hsame.log]; exact h.whole, by rw [hsame.log]; exact h.applied⟩

theorem Leads.commitTo (clock : Clock) (i : Int)
    (hno : NoRaise (commitTo clock i eng).1) : Leads q (commitTo clock i eng).1 := by
  have hkept := applyCommittedEntries_kept clock { eng with log := eng.log.advanceCommitIndex i }
  rcases h.tracks.commitTo clock i with ⟨htracks, hlast⟩ | ⟨hraise, -⟩
  · refine ⟨htracks, ?_, by rw [hlast, commitTo_commitIndex]⟩
    rw [htracks.log.lastIndex, ← h.whole, h.tracks.log.lastIndex, RaftReplicationEngine.commitTo,
      hkept.entries, hkept.snapshotLastIndex, RaftLog.advanceCommitIndex_eq]
  · exact absurd hno hraise

theorem Leads.compacted (i : Int) : Leads q (eng.compacted i) := by
  obtain ⟨hlast, hcommit⟩ := RaftLog.compactLogBefore_kept eng.log i
  have htrack := h.tracks.log.compact i
  refine ⟨⟨htrack, ?_⟩, htrack.lastIndex.trans ?_, ?_⟩
  · show q.stateAt (eng.log.compactLogBefore i).1.lastApplied = some eng.stateMachine
    rw [hlast]
    exact h.tracks.machine
  · have hwhole := h.whole
    rw [h.tracks.log.lastIndex] at hwhole
    rcases RaftLog.compactLogBefore_cases h.tracks.log.contiguous i with heq | ⟨k, e, he, -, heq⟩
    · rwa [heq]
    · have hlt := (List.getElem?_eq_some_iff.mp he).1
      rw [heq]
      simp only [List.length_drop]
      omega
  · show (eng.log.compactLogBefore i).1.lastApplied = (eng.log.compactLogBefore i).1.commitIndex
    rw [hlast, hcommit]
    exact h.applied

theorem Leads.append {e : LogEntry} (hidx : e.index = eng.log.lastIndex + 1) (hstamped : Stamped e) :
    ∃ q', Sequel.Extends q q' ∧ Leads q' (eng.append e) := by
  have hwhole := h.whole
  have hext : Sequel.Extends q (q.append e (by omega) hstamped) :=
    ⟨rfl, rfl, List.prefix_append _ _⟩
  have htrack := (h.tracks.log.of_extends hext).append hidx
    (List.mem_append_right _ (List.mem_singleton_self e))
  refine ⟨_, hext, ⟨htrack, (h.tracks.of_extends hext).machine⟩, ?_, h.applied⟩
  rw [h.tracks.log.lastIndex] at hwhole
  refine htrack.lastIndex.trans ?_
  simp only [Sequel.append, List.length_append, List.length_singleton]
  omega

end leader

theorem NoRaise.of_nodeStep {ev : NodeEvent} (h : NoRaise (nodeStep eng ev)) : NoRaise eng := by
  cases ev with
  | commit i clock => exact h.of_commitTo
  | handle view peers input =>
    revert h
    refine act_invariant (P := fun eng' => NoRaise eng' → NoRaise eng) ?_ ?_ id
      (fun _ _ _ _ => id) (fun _ _ _ => id) (fun _ _ _ _ _ _ _ => id) (fun _ _ _ _ _ _ _ => id)
    · intro eng₁ eng₂ hsame h hno
      exact h fun call hcall => hno call (by rw [hsame.applyCalls]; exact hcall)
    · exact fun eng₁ clock i h hno => h hno.of_commitTo

/-- **One event of the leader**: it goes on leading the sequel, or one that extends it. -/
theorem Leads.step (h : Leads q eng) {ev : NodeEvent} (hreq : ev.request? = none)
    (hsnap : ev.snapshot? = none) (hstamped : ∀ e ∈ ev.proposed? eng, Stamped e) (hno : NoRaise (nodeStep eng ev)) :
    ∃ q', Sequel.Extends q q' ∧ Leads q' (nodeStep eng ev) ∧
      eng.log.commitIndex ≤ (nodeStep eng ev).log.commitIndex := by
  cases ev with
  | commit i clock =>
    refine ⟨q, .refl q, h.commitTo clock i hno, ?_⟩
    rw [nodeStep, commitTo_commitIndex]
    exact le_max_left _ _
  | handle view peers input =>
    revert hno
    refine act_invariant (P := fun eng' => NoRaise eng' → ∃ q', Sequel.Extends q q' ∧ Leads q' eng' ∧
      eng.log.commitIndex ≤ eng'.log.commitIndex) ?_ ?_ (fun _ => ⟨q, .refl q, h, le_rfl⟩) ?_ ?_ ?_ ?_
    · intro eng₁ eng₂ hsame h₁ hno
      obtain ⟨q', hext, hleads, hle⟩ :=
        h₁ fun call hcall => hno call (by rw [hsame.applyCalls]; exact hcall)
      exact ⟨q', hext, hleads.of_sameCore hsame, by rw [hsame.log]; exact hle⟩
    · intro eng₁ clock i h₁ hno
      obtain ⟨q', hext, hleads, hle⟩ := h₁ hno.of_commitTo
      refine ⟨q', hext, hleads.commitTo clock i hno, ?_⟩
      rw [commitTo_commitIndex]
      exact hle.trans (le_max_left _ _)
    · rintro command now clock rfl -
      obtain ⟨q', hext, hleads⟩ := h.append rfl (hstamped (eng.entryFor view.term command now) rfl)
      exact ⟨q', hext, hleads, le_rfl⟩
    · rintro i now rfl -
      exact ⟨q, .refl q, h.compacted _, (RaftLog.compactLogBefore_kept eng.log _).2.ge⟩
    · rintro ⟨src, dst, senderId, payload⟩ now clock req rfl rfl
      simp [NodeEvent.request?] at hreq
    · rintro ⟨src, dst, senderId, payload⟩ now clock req rfl rfl
      simp [NodeEvent.snapshot?] at hsnap

/-! ### Requests -/

/-- What a request of the leader says is true of the sequel, as far as the leader has committed. -/
def Faithful (q : Sequel) (commit : Int) : RaftMsg → Prop
  | .appendEntriesRequest req => (∀ e ∈ req.entries, e ∈ q.entries) ∧ req.leaderCommit ≤ commit
  | .installSnapshotRequest req =>
    req.lastIncludedIndex ≤ commit ∧
      q.stateAt req.lastIncludedIndex = some (.importState req.data)
  | _ => True

theorem Faithful.mono {q' : Sequel} {c' : Int} {msg : RaftMsg} (h : Faithful q c msg)
    (hext : Sequel.Extends q q') (hend : c ≤ q.start + q.entries.length) (hc : c ≤ c') : Faithful q' c' msg := by
  cases msg with
  | appendEntriesRequest req =>
    exact ⟨fun e he => hext.entries.subset (h.1 e he), h.2.trans hc⟩
  | installSnapshotRequest req => exact ⟨h.1.trans hc, (hext.stateAt (h.1.trans hend)).trans h.2⟩
  | _ => trivial

/-- **The request the leader builds is faithful**, a snapshot if the leader is current. -/
theorem Leads.faithful (h : Leads q eng) (term : Int) (hcurrent : eng.NeedsSnapshot peer → eng.Current now) :
    Faithful q eng.log.commitIndex (eng.requestFor term now peer) := by
  unfold requestFor
  dsimp only
  split_ifs with hneeds
  · obtain ⟨hmarker, happlied, hlocks⟩ := hcurrent hneeds
    refine ⟨(hmarker.trans happlied).le, ?_⟩
    rw [hmarker, importState_exportState hlocks]
    exact h.tracks.machine
  · refine ⟨fun e he => h.tracks.log.mem_of_stored ?_, le_rfl⟩
    dsimp only [RaftLog.sliceFrom] at he
    split_ifs at he
    · simp at he
    · exact List.mem_of_mem_drop he

/-! ### The follower -/

theorem Tracks.handleAppendEntriesRequest (h : Tracks q eng) (hc : eng.log.commitIndex ≤ c)
    (hsome : (q.stateAt c).isSome) {req : AppendEntriesRequest}
    (hreq : Faithful q c (.appendEntriesRequest req)) (term : Int) (clock : Clock) :
    Tracks q (eng.handleAppendEntriesRequest term clock req).1 ∧
      (eng.handleAppendEntriesRequest term clock req).1.log.commitIndex ≤ c := by
  refine handleAppendEntriesRequest_invariant
    (P := fun eng => Tracks q eng ∧ eng.log.commitIndex ≤ c) ⟨h, hc⟩ ?_ ?_
  · intro _
    obtain ⟨htrack, hlast, hcommit⟩ := h.log.reconcile hreq.1 req.prevLogIndex req.prevLogTerm
    refine ⟨⟨htrack, ?_⟩, ?_⟩
    · show q.stateAt (eng.log.reconcileFollowerEntries _ _ _).1.lastApplied = _
      rw [hlast]
      exact h.machine
    · show (eng.log.reconcileFollowerEntries _ _ _).1.commitIndex ≤ c
      rwa [hcommit]
  · rintro eng₁ i hi ⟨h₁, hc₁⟩
    have hle : max eng₁.log.commitIndex (min i eng₁.log.lastIndex) ≤ c := by
      have := hreq.2
      omega
    rcases h₁.commitTo clock i with ⟨htracks, -⟩ | ⟨-, hnone⟩
    · exact ⟨htracks, by rw [commitTo_commitIndex]; exact hle⟩
    · -- the leader has applied these entries, so none of them raises
      rw [Sequel.stateAt_eq_none_of_le hle hnone] at hsome
      simp at hsome

/-- **A snapshot** that is not behind keeps the follower on track. -/
theorem Tracks.installed (h : Tracks q eng) (hc : eng.log.commitIndex ≤ c)
    (hend : c ≤ q.start + q.entries.length)
    (hreq : Faithful q c (.installSnapshotRequest req)) (hlast : eng.log.lastApplied ≤ req.lastIncludedIndex) :
    Tracks q (eng.installed req) ∧ (eng.installed req).log.commitIndex ≤ c := by
  have htrack := h.log.restore hlast (hreq.1.trans hend) req.lastIncludedTerm
  refine ⟨⟨htrack, ?_⟩, max_le hc hreq.1⟩
  show q.stateAt (max eng.log.lastApplied req.lastIncludedIndex) = _
  rw [max_eq_right hlast]
  exact hreq.2

/-! ### Both together -/

structure TransferInv (q : Sequel) (t : Transfer) : Prop where
  leads : Leads q t.leader
  tracks : Tracks q t.follower
  commit_le : t.follower.log.commitIndex ≤ t.leader.log.commitIndex
  sent : ∀ msg ∈ t.sent, Faithful q t.leader.log.commitIndex msg

theorem TransferInv.step {t : Transfer} (h : TransferInv q t) {ev : TransferEvent}
    (hok : t.Sound ev) (hno : NoRaise (t.step ev).leader) : ∃ q', TransferInv q' (t.step ev) := by
  have hend := h.leads.tracks.log.commit_le_end
  cases ev with
  | leader ev =>
    obtain ⟨q', hext, hleads, hle⟩ := h.leads.step hok.1 hok.2.1 hok.2.2 hno
    exact ⟨q', hleads, h.tracks.of_extends hext, h.commit_le.trans hle,
      fun msg hmsg => (h.sent msg hmsg).mono hext hend hle⟩
  | send term now peer =>
    refine ⟨q, h.leads, h.tracks, h.commit_le, fun msg hmsg => ?_⟩
    rcases List.mem_append.mp hmsg with hmsg | hmsg
    · exact h.sent msg hmsg
    · rw [List.mem_singleton.mp hmsg]
      exact h.leads.faithful term hok
  | deliver k term clock =>
    refine ⟨q, ?_⟩
    unfold Transfer.step
    unfold Transfer.Sound at hok
    dsimp only at hok ⊢
    split
    · rename_i req hget
      have hreq := h.sent _ (List.mem_of_getElem? hget)
      have hsome : (q.stateAt t.leader.log.commitIndex).isSome := by
        rw [← h.leads.applied, h.leads.tracks.machine]
        rfl
      obtain ⟨htracks, hle⟩ :=
        h.tracks.handleAppendEntriesRequest h.commit_le hsome hreq term clock
      exact ⟨h.leads, htracks, hle, h.sent⟩
    · rename_i req hget
      rw [hget] at hok
      have hreq := h.sent _ (List.mem_of_getElem? hget)
      unfold handleInstallSnapshotRequest
      split_ifs with hstale
      · exact h
      · obtain ⟨htracks, hle⟩ := h.tracks.installed h.commit_le hend hreq (hok (by omega))
        exact ⟨h.leads, htracks, hle, h.sent⟩
    · exact h

/-- None of the follower's indexes lies above `s`. -/
structure Behind (s : Int) (log : RaftLog) : Prop where
  entries : ∀ e ∈ log.entries, e.index ≤ s
  commitIndex : log.commitIndex ≤ s
  lastApplied : log.lastApplied ≤ s

theorem exists_leads (hord : eng.log.Ordered) (hcurrent : eng.Current now)
    (hstamped : ∀ e ∈ eng.log.entries, Stamped e) :
    ∃ q : Sequel, q.start = eng.log.snapshotLastIndex ∧ q.machine = eng.stateMachine ∧ Leads q eng := by
  obtain ⟨hmarker, happlied, -⟩ := hcurrent
  refine ⟨⟨eng.log.snapshotLastIndex, eng.stateMachine, eng.log.entries, hord.nonneg,
    hord.contiguous, hstamped⟩, rfl, rfl, ⟨⟨le_rfl, hmarker.le, happlied.le, by omega,
      by dsimp only; omega, by simp⟩, ?_⟩, RaftLog.lastIndex_eq hord.contiguous, happlied⟩
  rw [← hmarker]
  exact Sequel.stateAt_start _

theorem tracks_installed_of_behind (hbehind : Behind q.start eng.log) (hidx : req.lastIncludedIndex = q.start)
    (hdata : .importState req.data = q.machine) :
    Tracks q (eng.installed req) ∧ (eng.installed req).log.commitIndex = q.start := by
  have hentries : eng.log.entries.filter (fun e => e.index > q.start) = [] := by
    rw [List.filter_eq_nil_iff]
    intro e he
    have := hbehind.entries e he
    simp only [gt_iff_lt, decide_eq_true_eq]
    omega
  unfold RaftReplicationEngine.installed RaftLog.restoreSnapshot
  rw [hidx, hentries, hdata, max_eq_right hbehind.commitIndex, max_eq_right hbehind.lastApplied]
  exact ⟨⟨⟨le_rfl, le_rfl, le_rfl, by simp, by dsimp only; omega, List.nil_prefix⟩,
    Sequel.stateAt_start q⟩, rfl⟩

theorem installSnapshotRequest_eq {term : Int} (h : eng.requestFor term now peer = .installSnapshotRequest req) :
    req.lastIncludedIndex = eng.log.snapshotLastIndex ∧ req.data = eng.stateMachine.exportState now := by
  unfold requestFor at h
  dsimp only at h
  split_ifs at h
  rw [RaftMsg.installSnapshotRequest.injEq] at h
  subst h
  exact ⟨rfl, rfl⟩

/-- **The transfer starts**: the follower that is behind has installed the snapshot. -/
theorem exists_transferInv (hord : eng.log.Ordered) {term : Int}
    (hreq : eng.requestFor term now peer = .installSnapshotRequest req)
    (hcurrent : eng.Current now) (hstamped : ∀ e ∈ eng.log.entries, Stamped e) {follower : Engine}
    (hbehind : Behind eng.log.snapshotLastIndex follower.log) :
    ∃ q, TransferInv q ⟨eng, follower.installed req, []⟩ := by
  obtain ⟨q, hstart, hmachine, hleads⟩ := exists_leads hord hcurrent hstamped
  obtain ⟨hidx, hdata⟩ := installSnapshotRequest_eq hreq
  obtain ⟨hmarker, happlied, hlocks⟩ := hcurrent
  have himport : .importState req.data = q.machine := by
    rw [hdata, hmachine]
    exact importState_exportState hlocks
  obtain ⟨htracks, hcommit⟩ :=
    tracks_installed_of_behind (hstart ▸ hbehind) (hidx.trans hstart.symm) himport
  refine ⟨q, hleads, htracks, ?_, by simp⟩
  dsimp only
  omega

theorem NoRaise.of_step {t : Transfer} {ev : TransferEvent} (h : NoRaise (t.step ev).leader) : NoRaise t.leader := by
  cases ev with
  | leader ev => exact h.of_nodeStep
  | send term now peer => exact h
  | deliver k term clock =>
    unfold Transfer.step at h
    dsimp only at h
    split at h <;> exact h

/-- **Snapshot transfer is faithful**: a leader that is current builds a snapshot, a follower that is
behind installs it, and from then on leader and follower take any steps that are sound, the later
entries reaching the follower in requests that may be lost, repeated or out of order. As long as no
command has raised on the leader, a follower that has applied everything up to the leader's commit
index has the leader's state machine. -/
theorem snapshot_transfer_faithful (nodeId : String) (evs : List NodeEvent)
    (hrun : Along nodeStep KeepsApplied (init nodeId) evs) (leader : Engine)
    (hleader : leader = run nodeStep (init nodeId) evs) (term : Int) (now : Rat) (peer : Address)
    (req : InstallSnapshotRequest)
    (hreq : leader.requestFor term now peer = .installSnapshotRequest req)
    (hcurrent : leader.Current now) (hstamped : ∀ e ∈ leader.log.entries, Stamped e)
    (follower : Engine) (hbehind : Behind leader.log.snapshotLastIndex follower.log)
    (localTerm : Int) (hterm : localTerm ≤ req.term) (tevs : List TransferEvent)
    (hsound : Along Transfer.step Transfer.Sound
      ⟨leader, (follower.handleInstallSnapshotRequest localTerm req).1, []⟩ tevs) (t : Transfer)
    (ht : t = run Transfer.step
      ⟨leader, (follower.handleInstallSnapshotRequest localTerm req).1, []⟩ tevs)
    (hno : NoRaise t.leader) (hcaught : t.follower.log.lastApplied = t.leader.log.commitIndex) :
    t.follower.stateMachine = t.leader.stateMachine := by
  have hord : leader.log.Ordered := hleader ▸ ordered_run nodeId hrun
  have hinv : NoRaise t.leader → ∃ q, TransferInv q t := by
    rw [ht]
    refine Along.invariant (I := fun t : Transfer => NoRaise t.leader → ∃ q, TransferInv q t)
      (fun t ev h hok hno => ?_) (fun _ => ?_) hsound
    · obtain ⟨q, hq⟩ := h hno.of_step
      exact hq.step hok hno
    · rw [handleInstallSnapshotRequest_eq hterm]
      exact exists_transferInv hord hreq hcurrent hstamped hbehind
  obtain ⟨q, hq⟩ := hinv hno
  have hfollower := hq.tracks.machine
  rw [hcaught, ← hq.leads.applied, hq.leads.tracks.machine] at hfollower
  exact (Option.some.inj hfollower).symm

/-! ### A counter -/

def proposeIncrement : NodeEvent :=
  .handle ⟨1, .leader⟩ [⟨"b", 7000⟩, ⟨"c", 7000⟩]
    (.propose { writeCommand "x" with commandType := .increment } 1 fun _ => 0)

def storedByB (i : Int) : NodeEvent :=
  .handle ⟨1, .leader⟩ [⟨"b", 7000⟩, ⟨"c", 7000⟩]
    (.receive ⟨⟨"b", 7000⟩, ⟨"a", 7000⟩, "b", .appendEntriesResponse
      { term := 1, followerId := "b", success := true, matchIndex := i, lastLogIndex := i }⟩ 1
      fun _ => 0)

def compactTo (i : Int) : NodeEvent :=
  .handle ⟨1, .leader⟩ [⟨"b", 7000⟩, ⟨"c", 7000⟩] (.createSnapshot (some i) 1)

def installedByC : NodeEvent :=
  .handle ⟨1, .leader⟩ [⟨"b", 7000⟩, ⟨"c", 7000⟩]
    (.receive ⟨⟨"c", 7000⟩, ⟨"a", 7000⟩, "c", .installSnapshotResponse
      { term := 1, followerId := "c", success := true, matchIndex := 1 }⟩ 1 fun _ => 0)

def snapshotOne (leader : Engine) : InstallSnapshotRequest :=
  { term := 1, leaderId := "a", lastIncludedIndex := 1, lastIncludedTerm := 1,
    data := leader.stateMachine.exportState 1 }

def compactedOne : Engine := run nodeStep (init "a") [proposeIncrement, storedByB 1, compactTo 1]

def secondIncrement : List TransferEvent :=
  [.leader installedByC, .leader proposeIncrement, .leader (storedByB 2), .send 1 1 ⟨"c", 7000⟩,
    .deliver 0 1 fun _ => 0]

theorem transfer_second_increment :
    (run Transfer.step ⟨compactedOne, ((init "c").handleInstallSnapshotRequest 1
        (snapshotOne compactedOne)).1, []⟩ secondIncrement).follower.stateMachine =
      (run Transfer.step ⟨compactedOne, ((init "c").handleInstallSnapshotRequest 1
        (snapshotOne compactedOne)).1, []⟩ secondIncrement).leader.stateMachine :=
  snapshot_transfer_faithful "a" [proposeIncrement, storedByB 1, compactTo 1] (by decide)
    compactedOne rfl 1 1 ⟨"c", 7000⟩ (snapshotOne compactedOne) rfl ⟨rfl, rfl, by decide⟩ (by decide)
    (init "c") ⟨by decide, by decide, by decide⟩ 1 (by decide) secondIncrement
    ⟨⟨rfl, rfl, by decide⟩, ⟨rfl, rfl, by decide⟩, ⟨rfl, rfl, by decide⟩,
      fun h => absurd h (by decide), trivial, trivial⟩ _ rfl (by decide) rfl

def compactedLate : Engine :=
  run nodeStep (init "a") [proposeIncrement, proposeIncrement, storedByB 2, compactTo 1]

def repeatedIncrement : Transfer :=
  run Transfer.step
    ⟨compactedLate, ((init "c").handleInstallSnapshotRequest 1 (snapshotOne compactedLate)).1, []⟩
    [.leader installedByC, .send 1 1 ⟨"c", 7000⟩, .deliver 0 1 fun _ => 0]

/-- **A command is reflected twice**: the leader has applied two increments when it compacts up to the
first and sends a snapshot. The follower installs it as the state after the first, with the counter
at 2, applies the second increment once more, and ends with 3 where the leader has 2. -/
theorem snapshot_transfer_counts_twice :
    compactedLate.requestFor 1 1 ⟨"c", 7000⟩ = .installSnapshotRequest (snapshotOne compactedLate) ∧
      repeatedIncrement.follower.log.lastApplied = repeatedIncrement.leader.log.commitIndex ∧
      repeatedIncrement.leader.stateMachine.get "x" = some (.int 2) ∧
      repeatedIncrement.follower.stateMachine.get "x" = some (.int 3) :=
  ⟨rfl, rfl, rfl, rfl⟩

end RaftReplicationEngine

end MeshWeaver
