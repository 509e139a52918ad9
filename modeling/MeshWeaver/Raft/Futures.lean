import MeshWeaver.Raft.Network

/-!
# What a proposer is told

`propose_command` registers its future under the index of the entry it appended, and `apply_committed_entries` resolves
whatever is registered under the index it applies. The proposer is told the result of its own command as long as no
accepted request cuts the log at or below a registered index (`proposer_receives_own_result`); after a cut the index
goes to another leader's entry (`proposer_receives_foreign_result`).
-/

namespace MeshWeaver

open Lib RaftLog

namespace RaftReplicationEngine

variable {eng : Engine} {clock : Clock}

/-- The entry of every registered future is stored under its index, and every resolved future has the
result of its own entry. -/
structure FutureInv (eng : Engine) : Prop where
  uncompacted : eng.log.Uncompacted
  stored : ∀ i fut, eng.pendingProposals.get? i = some fut →
    ∃ p, eng.proposals[fut]? = some p ∧ eng.log.getEntry i = some p.entry
  resolved : ∀ p ∈ eng.proposals, ∀ v, p.state = .resolved v →
    ∃ call ∈ eng.applyCalls, call.entry = p.entry ∧ call.outcome = .ok v

theorem Proposal.entry_resolve (res : CommandResult) (p : Proposal) : (p.resolve res).entry = p.entry := by
  unfold Proposal.resolve
  split <;> rfl

theorem mem_modify {α : Type} {l : List α} {n : Nat} {f : α → α} {x : α} (h : x ∈ l.modify n f) :
    x ∈ l ∨ ∃ y, l[n]? = some y ∧ x = f y := by
  obtain ⟨m, hm⟩ := List.mem_iff_getElem?.mp h
  rw [List.getElem?_modify, Option.map_eq_map, Option.map_eq_some_iff] at hm
  obtain ⟨y, hy, rfl⟩ := hm
  split_ifs with hnm
  · exact Or.inr ⟨y, by rw [hnm, hy], rfl⟩
  · exact Or.inl (List.mem_of_getElem? hy)

theorem FutureInv.init (nodeId : String) : FutureInv (init nodeId) :=
  ⟨Uncompacted.empty, by simp [RaftReplicationEngine.init],
    by simp [RaftReplicationEngine.init]⟩

theorem FutureInv.of_kept {eng' : Engine} (h : FutureInv eng) (hun : eng'.log.Uncompacted)
    (hpending : eng'.pendingProposals = eng.pendingProposals) (hproposals : eng'.proposals = eng.proposals)
    (hcalls : ∀ call ∈ eng.applyCalls, call ∈ eng'.applyCalls)
    (hentries : ∀ i fut e, eng.pendingProposals.get? i = some fut → eng.log.getEntry i = some e →
      eng'.log.getEntry i = some e) : FutureInv eng' := by
  refine ⟨hun, fun i fut hget => ?_, fun p hp v hv => ?_⟩
  · rw [hpending] at hget
    obtain ⟨p, hp, hstored⟩ := h.stored i fut hget
    exact ⟨p, by rw [hproposals, hp], hentries i fut p.entry hget hstored⟩
  · rw [hproposals] at hp
    obtain ⟨call, hcall, hres⟩ := h.resolved p hp v hv
    exact ⟨call, hcalls call hcall, hres⟩

/-! ### Applying -/

theorem FutureInv.resolvePending (h : FutureInv eng) {entry : LogEntry}
    (hstored : eng.log.getEntry entry.index = some entry) {res : CommandResult}
    (hcall : (⟨entry, clock, .ok res⟩ : ApplyCall) ∈ eng.applyCalls) :
    FutureInv (eng.resolvePending entry.index res) := by
  unfold RaftReplicationEngine.resolvePending
  cases hget : eng.pendingProposals.get? entry.index with
  | none => exact h
  | some fut =>
    obtain ⟨p₀, hp₀, hentry⟩ := h.stored entry.index fut hget
    rw [hstored, Option.some.injEq] at hentry
    refine ⟨h.uncompacted, fun i fut' hget' => ?_, fun p hp v hv => ?_⟩
    · simp only [Dict.get?_erase] at hget'
      split_ifs at hget'
      obtain ⟨p, hp, hst⟩ := h.stored i fut' hget'
      by_cases hf : fut = fut'
      · exact ⟨p.resolve res, by simp [hf, hp],
          by rw [Proposal.entry_resolve]; exact hst⟩
      · exact ⟨p, by simp [hf, hp], hst⟩
    · rcases mem_modify hp with hp | ⟨p₁, hp₁, rfl⟩
      · exact h.resolved p hp v hv
      · -- the future just resolved, unless it was done before
        rw [hp₀, Option.some.injEq] at hp₁
        subst hp₁
        cases hstate : p₀.state with
        | pending =>
          simp only [Proposal.resolve, hstate, FutureState.resolved.injEq] at hv
          subst hv
          exact ⟨_, hcall, by rw [Proposal.entry_resolve, hentry], rfl⟩
        | resolved w =>
          simp only [Proposal.resolve, hstate] at hv ⊢
          exact h.resolved p₀ (List.mem_of_getElem? hp₀) v (hstate.trans hv)
        | timedOut => simp [Proposal.resolve, hstate] at hv

theorem getEntry_congr {log log' : RaftLog} (hentries : log'.entries = log.entries)
    (hsnap : log'.snapshotLastIndex = log.snapshotLastIndex) (i : Int) : log'.getEntry i = log.getEntry i := by
  simp only [getEntry, hentries, hsnap]

theorem FutureInv.applyOne (h : FutureInv eng) {entry : LogEntry}
    (hstored : eng.log.getEntry entry.index = some entry) : FutureInv (applyOne clock entry eng).1 := by
  unfold RaftReplicationEngine.applyOne
  rcases eng.stateMachine.applyCommand clock entry with ⟨sm, out⟩
  cases out with
  | error e =>
    exact h.of_kept h.uncompacted rfl rfl (fun call hcall => List.mem_append_left _ hcall)
      fun _ _ _ _ => id
  | ok res =>
    obtain ⟨hentries, -, hsnap, -⟩ := markApplied_kept eng.log entry.index
    have hget := getEntry_congr hentries hsnap
    have hinv : FutureInv { eng with
        stateMachine := sm
        log := eng.log.markApplied entry.index
        applyCalls := eng.applyCalls ++ [⟨entry, clock, .ok res⟩] } :=
      h.of_kept ⟨hsnap.trans h.uncompacted.noSnapshot, hentries ▸ h.uncompacted.numbered⟩ rfl rfl
        (fun call hcall => List.mem_append_left _ hcall) fun i _ e _ he => (hget i).trans he
    exact hinv.resolvePending ((hget _).trans hstored) (List.mem_append_right _ List.mem_cons_self)

theorem getEntry_of_mem_unapplied {log : RaftLog} (h : log.Uncompacted) {e : LogEntry}
    (he : e ∈ log.getUnappliedEntries) : log.getEntry e.index = some e := by
  obtain ⟨k, hk, -, -⟩ := mem_getUnappliedEntries h he
  have hidx := h.numbered k e hk
  rw [hidx, add_comm, h.getEntry_succ, hk]

theorem FutureInv.commitTo (h : FutureInv eng) (clock : Clock) (i : Int) : FutureInv (commitTo clock i eng).1 := by
  have hadv := advanceCommitIndex_eq h.uncompacted i
  have hget : ∀ j, (eng.log.advanceCommitIndex i).getEntry j = eng.log.getEntry j := fun j => by
    rw [hadv]
    rfl
  have hinv : FutureInv { eng with log := eng.log.advanceCommitIndex i } :=
    h.of_kept (by rw [hadv]; exact ⟨h.uncompacted.noSnapshot, h.uncompacted.numbered⟩) rfl rfl
      (fun _ => id) fun j _ e _ he => (hget j).trans he
  -- the loop leaves the stored entries alone
  refine (applyLoop_invariant (P := fun eng' => FutureInv eng' ∧
    ∀ j, eng'.log.getEntry j = (eng.log.advanceCommitIndex i).getEntry j) ?_ ⟨hinv, fun _ => rfl⟩).1
  rintro eng₁ entry hentry ⟨h₁, hsame⟩
  have hkept := applyOne_kept clock entry eng₁
  refine ⟨h₁.applyOne ((hsame _).trans (getEntry_of_mem_unapplied hinv.uncompacted hentry)),
    fun j => (getEntry_congr hkept.entries hkept.snapshotLastIndex j).trans (hsame j)⟩

/-! ### Requests -/

/-- No entry of the request conflicts with a stored entry at or below index `i`. -/
def SparesUpTo (log : RaftLog) (entries : List LogEntry) (i : Int) : Prop :=
  ∀ e ∈ entries, e.index ≤ i → ∀ f ∈ log.getEntry e.index, f.term = e.term
deriving Decidable

theorem reconcileLoop_spares {log : RaftLog} (h : log.Uncompacted) {entries : List LogEntry} {n : Nat}
    (hn : n ≤ log.entries.length) (hspares : SparesUpTo log entries n) :
    (reconcileLoop entries log).1.Uncompacted ∧
      (reconcileLoop entries log).1.entries.take n = log.entries.take n := by
  suffices hinv : (reconcileLoop entries log).1.Uncompacted ∧
      n ≤ (reconcileLoop entries log).1.entries.length ∧
      (reconcileLoop entries log).1.entries.take n = log.entries.take n from
    ⟨hinv.1, hinv.2.2⟩
  refine reconcileLoop_invariant (P := fun log' => log'.Uncompacted ∧
    n ≤ log'.entries.length ∧ log'.entries.take n = log.entries.take n)
    (fun log' h' => h'.1.contiguous) ?_ ?_ log ⟨h, hn, rfl⟩
  · rintro log' - - e ⟨hun, hlen, htake⟩ he -
    refine ⟨⟨hun.noSnapshot, hun.numbered.append (.singleton ?_)⟩, ?_, ?_⟩
    · rw [he, hun.lastIndex, add_comm]
    · simp only [List.length_append]
      omega
    · rw [List.take_append_of_le_length hlen, htake]
  · rintro log' e he k f ⟨hun, hlen, htake⟩ hidx hget hne
    rw [hun.noSnapshot] at hidx
    have hk : n ≤ k := by
      by_contra hlt
      -- a cut below `n` would be a conflict with an entry of the original log
      have hsame := congrArg (fun es => es[k]?) htake
      simp only [List.getElem?_take, if_pos (not_le.mp hlt), hget] at hsame
      have hstored : log.getEntry e.index = some f := by
        rw [hidx, zero_add, add_comm, h.getEntry_succ, ← hsame]
      exact hne (hspares e he (by omega) f hstored)
    refine ⟨⟨hun.noSnapshot, hun.numbered.take k⟩, ?_, ?_⟩
    · simp only [List.length_take]
      omega
    · rw [List.take_take, min_eq_left hk, htake]

theorem getEntry_of_take_eq {log log' : RaftLog} (h : log.Uncompacted) (h' : log'.Uncompacted)
    {i : Int} (htake : log'.entries.take i.toNat = log.entries.take i.toNat) {e : LogEntry}
    (he : log.getEntry i = some e) : log'.getEntry i = some e := by
  have hpos : 1 ≤ i := by
    by_contra hlt
    rw [h.getEntry_nonpos (by omega)] at he
    cases he
  rw [h.getEntry hpos] at he
  rw [h'.getEntry hpos]
  have hsame := congrArg (fun es => es[(i - 1).toNat]?) htake
  simpa only [List.getElem?_take, if_pos (show (i - 1).toNat < i.toNat by omega), he] using hsame

section

variable (h : FutureInv eng)
include h

theorem FutureInv.reconcile {entries : List LogEntry}
    (hspares : ∀ i ∈ eng.pendingProposals.keys, SparesUpTo eng.log entries i) :
    FutureInv { eng with log := (reconcileLoop entries eng.log).1 } := by
  have hun := h.uncompacted
  have hnone : SparesUpTo eng.log entries (0 : Nat) := by
    intro e _ hle f hf
    rw [hun.getEntry_nonpos (by simpa using hle)] at hf
    cases hf
  refine h.of_kept (reconcileLoop_spares hun (Nat.zero_le _) hnone).1 rfl rfl (fun _ => id) ?_
  intro i fut e hget he
  have hkey : i ∈ eng.pendingProposals.keys :=
    List.mem_map_of_mem (f := Prod.fst) ((Dict.mem_items_iff _ _ _).mpr hget)
  have hpos : 1 ≤ i := by
    by_contra hlt
    rw [hun.getEntry_nonpos (by omega)] at he
    cases he
  have hlen : i.toNat ≤ eng.log.entries.length := by
    rw [hun.getEntry hpos] at he
    have := (List.getElem?_eq_some_iff.mp he).1
    omega
  obtain ⟨hun', htake⟩ := reconcileLoop_spares hun hlen
    (by rw [Int.toNat_of_nonneg (by omega)]; exact hspares i hkey)
  exact getEntry_of_take_eq hun hun' htake he

theorem FutureInv.handleAppendEntriesRequest {term : Int} {req : AppendEntriesRequest}
    (hspares : WouldAccept term eng.log req →
      ∀ i ∈ eng.pendingProposals.keys, SparesUpTo eng.log req.entries i) :
    FutureInv (eng.handleAppendEntriesRequest term clock req).1 := by
  by_cases hstale : req.term < term
  · rwa [RaftReplicationEngine.handleAppendEntriesRequest, if_pos hstale]
  by_cases hcheck : eng.log.checkConsistency req.prevLogIndex req.prevLogTerm = true
  · have hinv := h.reconcile (hspares ⟨not_lt.mp hstale, hcheck⟩)
    have hrec : eng.log.reconcileFollowerEntries req.prevLogIndex req.prevLogTerm req.entries = _ :=
      if_pos hcheck
    rcases hloop : reconcileLoop req.entries eng.log with ⟨log, out⟩
    rw [hloop] at hinv hrec
    cases out with
    | error e =>
      rwa [RaftReplicationEngine.handleAppendEntriesRequest, if_neg hstale, hrec]
    | ok u =>
      obtain ⟨eng', res, heq, hcommit, -⟩ := handleAppendEntriesRequest_of_reconcile hstale hrec clock
      rw [heq]
      rcases hcommit with ⟨-, rfl⟩ | ⟨-, rfl⟩
      · exact hinv.commitTo clock _
      · exact hinv
  · simpa [RaftReplicationEngine.handleAppendEntriesRequest, reconcileFollowerEntries, hstale,
      hcheck] using h

/-! ### Answers, proposals and timeouts -/

theorem FutureInv.handleAppendEntriesResponse (term : Int) (role : ElectionRole)
    (peers : List Address) (resp : AppendEntriesResponse) (senderId : String) (addr : Option Address) (port : Nat) :
    FutureInv (eng.handleAppendEntriesResponse term role peers clock resp senderId addr port).1 := by
  obtain ⟨followers, heq⟩ := recordAnswer_eq resp (followerKeys resp.followerId senderId addr port) eng
  have hinv : FutureInv (eng.recordAnswer resp
      (followerKeys resp.followerId senderId addr port)) := by
    rw [heq]
    exact h.of_kept h.uncompacted rfl rfl (fun _ => id) fun _ _ _ _ => id
  rcases handleAppendEntriesResponse_cases h.uncompacted term role peers clock resp senderId addr
    port with hsame | ⟨-, -, i, -, -, -, hto⟩
  · rwa [hsame]
  · obtain ⟨clock', hres⟩ := hto.result
    rw [hres]
    exact hinv.commitTo clock' i

theorem FutureInv.proposeCommand (term : Int) (role : ElectionRole)
    (peers : List Address) (now : Rat) (command : Command) :
    FutureInv (eng.proposeCommand term role peers now clock command).1 := by
  by_cases hrole : role = .leader
  · obtain ⟨e, hidx, -, happ⟩ := appendCommand_eq h.uncompacted term
      { command with clientId := some (orStr command.clientId eng.nodeId) } now
    have hun : ({ eng.log with entries := eng.log.entries ++ [e] } : RaftLog).Uncompacted :=
      ⟨h.uncompacted.noSnapshot, h.uncompacted.numbered.append (.singleton (by rw [hidx]; omega))⟩
    -- the entries stored so far keep their indexes
    have hget : ∀ i f, eng.log.getEntry i = some f →
        ({ eng.log with entries := eng.log.entries ++ [e] } : RaftLog).getEntry i = some f := by
      intro i f hf
      have hlt : i.toNat ≤ eng.log.entries.length := by
        by_contra hlt
        rw [h.uncompacted.getEntry (by omega), List.getElem?_eq_none_iff.mpr (by omega)] at hf
        cases hf
      exact getEntry_of_take_eq h.uncompacted hun (List.take_append_of_le_length hlt) hf
    have hinv : FutureInv { eng with log := { eng.log with entries := eng.log.entries ++ [e] } } :=
      h.of_kept hun rfl rfl (fun _ => id) fun i _ f _ => hget i f
    simp only [RaftReplicationEngine.proposeCommand, ne_eq, hrole, not_true_eq_false, if_false, happ]
    by_cases hpeers : peers = []
    · rw [if_pos hpeers]
      have hcommit := hinv.commitTo clock e.index
      rcases hres : RaftReplicationEngine.commitTo clock e.index
        { eng with log := { eng.log with entries := eng.log.entries ++ [e] } } with ⟨eng₂, out⟩
      rw [hres] at hcommit
      cases out <;> exact hcommit
    · rw [if_neg hpeers]
      refine ⟨hun, fun i fut hfut => ?_, fun p hp v hv => ?_⟩
      · simp only [Dict.get?_insert] at hfut
        split_ifs at hfut with hi
        · -- the future just registered
          cases hfut
          rw [hi, hidx, hun.getEntry_succ]
          simp
        · obtain ⟨p, hp, hst⟩ := h.stored i fut hfut
          refine ⟨p, ?_, hget i _ hst⟩
          rw [List.getElem?_append_left (List.getElem?_eq_some_iff.mp hp).1, hp]
      · rcases List.mem_append.mp hp with hp | hp
        · exact h.resolved p hp v hv
        · rw [List.mem_singleton.mp hp] at hv
          cases hv
  · simpa [RaftReplicationEngine.proposeCommand, hrole] using h

theorem FutureInv.proposalTimeout (fut : Nat) : FutureInv (eng.proposalTimeout fut) := by
  unfold RaftReplicationEngine.proposalTimeout
  split
  · rename_i entry hget
    refine ⟨h.uncompacted, fun i fut' hfut => ?_, fun p hp v hv => ?_⟩
    · simp only [Dict.get?_erase] at hfut
      split_ifs at hfut
      obtain ⟨p, hp, hst⟩ := h.stored i fut' hfut
      by_cases hf : fut = fut'
      · subst hf
        rw [hget, Option.some.injEq] at hp
        subst hp
        exact ⟨⟨entry, .timedOut⟩, by simp [(List.getElem?_eq_some_iff.mp hget).1], hst⟩
      · exact ⟨p, by rw [List.getElem?_set_ne hf, hp], hst⟩
    · rcases List.mem_or_eq_of_mem_set hp with hp | rfl
      · exact h.resolved p hp v hv
      · cases hv
  · exact h

end

/-! ### Runs of one node -/

def NodeEvent.Plain : NodeEvent → Prop
  | .handle _ _ input => input.Plain
  | .commit _ _ => True

/-- A request that is accepted does not conflict with stored entries up to a registered index. -/
def SparesPending (eng : Engine) (ev : NodeEvent) : Prop :=
  ∀ p ∈ ev.request?, WouldAccept p.1 eng.log p.2 →
    ∀ i ∈ eng.pendingProposals.keys, SparesUpTo eng.log p.2.entries i
deriving Decidable

/-- **Every step that spares the pending entries keeps the invariant.** -/
theorem FutureInv.step (h : FutureInv eng) {ev : NodeEvent} (hplain : ev.Plain)
    (hspares : SparesPending eng ev) : FutureInv (nodeStep eng ev) := by
  cases ev with
  | commit i clock => exact h.commitTo clock i
  | handle view peers input =>
    cases input with
    | propose command now clock => exact h.proposeCommand view.term view.role peers now command
    | broadcast now => exact h
    | timeout fut => exact h.proposalTimeout fut
    | createSnapshot idx now => exact hplain.elim
    | receive pkt now clock =>
      obtain ⟨src, dst, senderId, payload⟩ := pkt
      cases payload with
      | appendEntriesRequest req =>
        have hinv : FutureInv (eng.handleAppendEntriesRequest view.term clock req).1 :=
          h.handleAppendEntriesRequest (hspares (view.term, req) rfl)
        simp only [nodeStep, act]
        rcases hres : eng.handleAppendEntriesRequest view.term clock req with ⟨eng', out⟩
        rw [hres] at hinv
        cases out <;> exact hinv
      | appendEntriesResponse resp =>
        exact h.handleAppendEntriesResponse view.term view.role peers resp senderId (some src) 0
      | installSnapshotRequest req | installSnapshotResponse resp => exact hplain.elim

/-- **A proposer receives the result of its own command**, in every run without snapshots whose steps
all spare the pending entries: a future that is resolved with `v` has an entry for which
`apply_command` was called and returned `v`. -/
theorem proposer_receives_own_result (nodeId : String) (evs : List NodeEvent)
    (hrun : Along nodeStep (fun eng ev => ev.Plain ∧ SparesPending eng ev) (init nodeId) evs)
    (p : Proposal) (hp : p ∈ (run nodeStep (init nodeId) evs).proposals) (v : CommandResult)
    (hres : p.state = .resolved v) :
    ∃ call ∈ (run nodeStep (init nodeId) evs).applyCalls,
      call.entry = p.entry ∧ call.outcome = .ok v :=
  (Along.invariant (I := FutureInv) (fun _ _ h hok => h.step hok.1 hok.2) (FutureInv.init nodeId)
    hrun).resolved p hp v hres

def proposeOne : NodeEvent :=
  .handle ⟨1, .leader⟩ [⟨"b", 7000⟩]
    (.propose { writeCommand "x" with value := .int 1 } 1 fun _ => 0)

def acknowledged : NodeEvent :=
  .handle ⟨1, .leader⟩ [⟨"b", 7000⟩]
    (.receive ⟨⟨"b", 7000⟩, ⟨"a", 7000⟩, "b", .appendEntriesResponse
      { term := 1, followerId := "b", success := true, matchIndex := 1, lastLogIndex := 1 }⟩ 1
      fun _ => 0)

def replaced : NodeEvent :=
  .handle ⟨2, .follower⟩ [⟨"b", 7000⟩]
    (.receive ⟨⟨"b", 7000⟩, ⟨"a", 7000⟩, "b", .appendEntriesRequest
      { term := 2, leaderId := "b", prevLogIndex := 0, prevLogTerm := 0,
        entries := [{ writeEntry 1 2 "x" with value := .int 2 }], leaderCommit := 1 }⟩ 1
      fun _ => 0)

/-- A future that is resolved with the result of its own command. -/
theorem own_result_acknowledged :
    ∃ call ∈ (run nodeStep (init "a") [proposeOne, acknowledged]).applyCalls,
      call.entry = { writeEntry 1 1 "x" with value := .int 1, clientId := some "a" } ∧
        call.outcome = .ok (.value (.int 1)) :=
  proposer_receives_own_result "a" [proposeOne, acknowledged]
    ⟨⟨trivial, by decide⟩, ⟨trivial, by decide⟩, trivial⟩
    ⟨{ writeEntry 1 1 "x" with value := .int 1, clientId := some "a" },
      .resolved (.value (.int 1))⟩ (List.mem_singleton.mpr rfl) _ rfl

/-- **The proposer of one command receives the result of another**: its entry sets the key to 1, it
is told 2, and `apply_command` is never called for an entry of its term. -/
theorem proposer_receives_foreign_result :
    (∀ ev ∈ [proposeOne, replaced], ev.Plain) ∧
      ∃ p ∈ (run nodeStep (init "a") [proposeOne, replaced]).proposals,
        p.entry.term = 1 ∧ p.entry.value = .int 1 ∧ p.state = .resolved (.value (.int 2)) ∧
        ∀ call ∈ (run nodeStep (init "a") [proposeOne, replaced]).applyCalls,
          call.entry.term = 2 := by
  refine ⟨by simp [proposeOne, replaced, NodeEvent.Plain, EngineInput.Plain], ⟨_, _⟩,
    List.mem_singleton.mpr rfl, rfl, rfl, rfl, ?_⟩
  decide

end RaftReplicationEngine

end MeshWeaver
