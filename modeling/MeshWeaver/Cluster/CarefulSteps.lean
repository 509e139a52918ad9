import MeshWeaver.Cluster.Commitment

/-!
# Careful steps keep the safety invariant

Every move of a replication engine in a careful step has a safety effect: a leader that commits has a
majority that vouches for the entry, and a follower that accepts a request ends with a beginning of the
log of its term.
-/

namespace MeshWeaver

open Lib
open RaftReplicationEngine

variable {cfg : Config} {s : Cluster} {H : History} {ev : RaftEvent}

theorem Careful.unchallenged {ev : ClusterEvent} (hok : Careful cfg s ev) : LogInv.Unchallenged cfg s ev := by
  intro p hp _ hlt
  by_contra hne
  rw [Bool.not_eq_false] at hne
  have := (hok.requests p hp ⟨hlt.le, hne⟩).1
  omega

structure CountedAnswer (cfg : Config) (s : Cluster) (i x : String) (pkt : Packet RaftMsg)
    (resp : AppendEntriesResponse) : Prop where
  sent : pkt ∈ s.raft.sent
  payload : pkt.payload = .appendEntriesResponse resp
  success : resp.success = true
  member : x ∈ cfg.members
  other : x ≠ i
  src : pkt.src = cfg.addr x
  senderId : pkt.senderId = x
  followerId : resp.followerId = x
  term : resp.term = (s.view i).term
  safe : SafeTally (s.raft.node i) (s.view i).term (cfg.peers i) pkt.src resp.matchIndex

namespace SafetyInv

variable {i : String} {eng : RaftReplicationEngine} {out : List (Address × RaftMsg)} (h : SafetyInv cfg s H)
  (hi : i ∈ cfg.members) {pkt : Packet RaftMsg}
include h hi

theorem commitIndex_le_length : (s.raft.node i).log.commitIndex ≤ (s.entries i).length := by
  by_contra hlt
  have hcov := (h.commits i hi ((s.raft.node i).log.commitIndex - 1).toNat (by omega)).lt_length
  omega

theorem effect_of_kept (hlog : LogEffect cfg s H i eng out H)
    (hkept : eng.log = (s.raft.node i).log) (hcalls : eng.applyCalls = (s.raft.node i).applyCalls)
    (hrecords : Records cfg i eng)
    (hprogress : (s.view i).role = .leader → ∀ x ∈ cfg.members, x ≠ i →
      ∀ k : Nat, (k : Int) < eng.matchOf (.addr (cfg.addr x)) →
        Acked s.raft.sent H x (s.view i).term k)
    (hout : ∀ m ∈ out, (∃ req, m.2 = .appendEntriesRequest req ∧ req.term = (s.view i).term ∧
        req.leaderCommit = eng.log.commitIndex) ∨
      ∃ resp, m.2 = .appendEntriesResponse resp ∧ resp.success = false) :
    SafetyEffect cfg s H i eng out H where
  log := hlog
  bounded := by rw [hkept]; exact h.bounded i hi
  answers := by
    intro m hm resp hresp hs
    rcases hout m hm with ⟨req, hreq, -⟩ | ⟨resp', hresp', hfail⟩
    · simp [hresp] at hreq
    · rw [hresp, RaftMsg.appendEntriesResponse.injEq] at hresp'
      simp [← hresp', hs] at hfail
  keeps := Or.inl (by rw [hkept]; exact List.prefix_refl _)
  records := hrecords
  progress := hprogress
  requests := by
    intro m hm req hreq
    rcases hout m hm with ⟨req', hreq', hsame⟩ | ⟨resp, hresp, -⟩
    · rw [hreq, RaftMsg.appendEntriesRequest.injEq] at hreq'
      rwa [hreq']
    · simp [hreq] at hresp
  nonneg := by rw [hkept]; exact h.nonneg i hi
  commits := by rw [hkept]; exact h.commits i hi
  calls := fun call hcall => Or.inl (hcalls ▸ hcall)

omit h hi in
theorem requests_of_leader (hun : eng.log.Uncompacted) {now : Rat} :
    ∀ m ∈ (cfg.peers i).map (fun peer => (peer, eng.requestFor (s.view i).term now peer)),
      ∃ req, m.2 = .appendEntriesRequest req ∧ req.term = (s.view i).term ∧
        req.leaderCommit = eng.log.commitIndex := by
  intro m hm
  obtain ⟨x, -, -, req, rfl, -, hterm, hcommit⟩ := mem_requests hun hm
  exact ⟨req, rfl, hterm, hcommit⟩

theorem progress_record {resp : AppendEntriesResponse} {x : String}
    (hsent : pkt ∈ s.raft.sent) (hresp : pkt.payload = .appendEntriesResponse resp)
    (hsrc : pkt.src = cfg.addr x) (hfid : resp.followerId = x)
    (hterm : (s.view i).role = .leader → resp.success = true → resp.term = (s.view i).term) :
    (s.view i).role = .leader → ∀ y ∈ cfg.members, y ≠ i → ∀ k : Nat,
      (k : Int) < ((s.raft.node i).recordPacket pkt resp).matchOf (.addr (cfg.addr y)) →
      Acked s.raft.sent H y (s.view i).term k := by
  intro hrole y hy hne k hk
  rw [Records.matchOf_addr hsrc] at hk
  split_ifs at hk with hkey
  · rcases lt_max_iff.mp hk with hold | hnew
    · exact h.progress i hi hrole y hy hne k hold
    · obtain ⟨hs, rfl⟩ := hkey
      exact Or.inr ⟨pkt, hsent, resp, hresp, hs, hfid, hterm hrole hs, hnew⟩
  · exact h.progress i hi hrole y hy hne k hk

theorem chosen_of_alone (hrole : (s.view i).role = .leader) (halone : cfg.peers i = [])
    {e : LogEntry} (hterm : e.term = (s.view i).term) :
    Chosen cfg s.raft.sent (H.append (s.view i).term e) (s.view i).term (H.log (s.view i).term).length := by
  refine ⟨⟨e, by simp, hterm⟩, {i}, ?_, fun x hx => ?_⟩
  · refine Config.majority_of_quorum hi (by simpa using hi) ?_
    simp [halone]
  · rw [Finset.mem_singleton.mp hx]
    exact Or.inl ⟨(h.log.leads i hi hrole).1, by simp⟩

omit h hi in
theorem entries_of_propose {e : LogEntry} {eng₁ : RaftReplicationEngine} {now : Rat}
    (happ : Appends (s.raft.node i) (s.view i).term e eng₁)
    (hrest : cfg.peers i = [] ∧ CommitsTo eng₁ e.index eng ∧ out = [] ∨
      cfg.peers i ≠ [] ∧ eng = eng₁ ∧
        out = (cfg.peers i).map fun peer => (peer, eng₁.requestFor (s.view i).term now peer)) :
    eng.log.entries = s.entries i ++ [e] := by
  have hentries₁ : eng₁.log.entries = s.entries i ++ [e] := by rw [happ.2.2.1]; rfl
  rcases hrest with ⟨-, hto, -⟩ | ⟨-, rfl, -⟩
  · rw [hto.entries, hentries₁]
  · exact hentries₁

theorem effect_of_propose (hrole : (s.view i).role = .leader) {e : LogEntry}
    {eng₁ : RaftReplicationEngine} {now : Rat} (happ : Appends (s.raft.node i) (s.view i).term e eng₁)
    (hlog : LogEffect cfg s H i eng out (H.append (s.view i).term e))
    (hrest : cfg.peers i = [] ∧ CommitsTo eng₁ e.index eng ∧ out = [] ∨
      cfg.peers i ≠ [] ∧ eng = eng₁ ∧
        out = (cfg.peers i).map fun peer => (peer, eng₁.requestFor (s.view i).term now peer)) :
    SafetyEffect cfg s H i eng out (H.append (s.view i).term e) := by
  have hun₁ := happ.uncompacted (h.log.uncompacted i hi)
  have hentries := entries_of_propose happ hrest
  obtain ⟨hidx, hterm, hlog₁, -, hfol₁, -, hcalls₁⟩ := happ
  have hhist := (h.log.leads i hi hrole).2
  have hext := H.extends_append (s.view i).term e
  have hfol : eng.followers = (s.raft.node i).followers := by
    rcases hrest with ⟨-, hto, -⟩ | ⟨-, rfl, -⟩
    · rw [hto.followers, hfol₁]
    · exact hfol₁
  have hcommit₁ : eng₁.log.commitIndex = (s.raft.node i).log.commitIndex := by rw [hlog₁]
  have hnonneg := h.nonneg i hi
  -- what was committed stays covered
  have hold : ∀ k : Nat, (k : Int) < (s.raft.node i).log.commitIndex →
      Covered cfg s.raft.sent (H.append (s.view i).term e) (s.view i).term eng.log.entries k := by
    intro k hk
    have hcov := h.commits i hi k hk
    have hlt := hcov.lt_length
    obtain ⟨T, m, hT, hkm, hchosen, htake⟩ := hcov.mono (fun _ => id) hext le_rfl
    refine ⟨T, m, hT, hkm, hchosen, ?_⟩
    rw [hentries, List.take_append_of_le_length hlt, htake]
  refine ⟨hlog, fun f hf => ?_, fun m hm resp hresp => ?_, Or.inl ?_, (h.records i hi).congr hfol,
    fun hrole x hx hne k hk => ?_, fun m hm req hreq => ?_, ?_, fun k hk => ?_, fun call hcall => ?_⟩
  · rw [hentries, List.mem_append, List.mem_singleton] at hf
    rcases hf with hf | rfl
    · exact h.bounded i hi f hf
    · exact hterm.le
  · rcases hrest with ⟨-, -, rfl⟩ | ⟨-, -, rfl⟩
    · simp at hm
    · obtain ⟨req, hreq, -⟩ := requests_of_leader hun₁ m hm
      simp [hresp] at hreq
  · rw [hentries]
    exact List.prefix_append _ _
  · rw [matchOf, hfol] at hk
    exact h.progress i hi hrole x hx hne k hk
  · rcases hrest with ⟨-, -, rfl⟩ | ⟨-, rfl, rfl⟩
    · simp at hm
    · obtain ⟨req', hreq', hsame⟩ := requests_of_leader hun₁ m hm
      rw [hreq, RaftMsg.appendEntriesRequest.injEq] at hreq'
      rwa [hreq']
  · rcases hrest with ⟨-, hto, -⟩ | ⟨-, rfl, -⟩
    · rw [hto.commitIndex, hcommit₁]
      exact hnonneg.trans (le_max_left _ _)
    · rwa [hcommit₁]
  · rcases hrest with ⟨halone, hto, -⟩ | ⟨-, rfl, -⟩
    · rw [hto.commitIndex, hcommit₁] at hk
      rcases lt_max_iff.mp hk with hk | hk
      · exact hold k hk
      · have hlen : (H.log (s.view i).term).length = (s.raft.node i).log.entries.length :=
          congrArg List.length hhist.symm
        refine ⟨(s.view i).term, (H.log (s.view i).term).length, le_rfl, by omega,
          h.chosen_of_alone hi hrole halone hterm, ?_⟩
        rw [hentries, History.append_log_self, hhist]
    · exact hold k (hcommit₁ ▸ hk)
  · rcases hrest with ⟨-, hto, -⟩ | ⟨-, rfl, -⟩
    · obtain ⟨calls, heq, hcalls⟩ := hto.calls
      rw [heq, hcalls₁, List.mem_append] at hcall
      exact hcall.imp_right (hcalls call)
    · exact Or.inl (hcalls₁ ▸ hcall)

section commit

variable {pkt : Packet RaftMsg} {resp : AppendEntriesResponse} {x : String} {n : Int}
  (hrole : (s.view i).role = .leader) (hans : CountedAnswer cfg s i x pkt resp)
  (habove : (s.raft.node i).log.commitIndex < n)
  (hstored : n ≤ (s.raft.node i).log.entries.length)
  (hq : ((s.raft.node i).recordPacket pkt resp).hasQuorum (s.view i).term (cfg.peers i) n = true)
include hrole hans habove hstored hq

/-- **What a leader commits is chosen**: a majority has vouched for it in the leader's term. -/
theorem chosen_of_hasQuorum : Chosen cfg s.raft.sent H (s.view i).term (n - 1).toNat := by
  have hun := h.log.uncompacted i hi
  have hnonneg := h.nonneg i hi
  obtain ⟨hlead, hhist⟩ := h.log.leads i hi hrole
  have hlt : (n - 1).toNat < (H.log (s.view i).term).length := by
    have hlen : (s.raft.node i).log.entries.length = (H.log (s.view i).term).length :=
      congrArg List.length hhist
    omega
  have hrecords := (h.records i hi).record hans.member hans.other hans.src hans.senderId
    hans.followerId
  have hQ := majority_of_hasQuorum hi hun hans.success hrecords.aliasedPeers hans.safe (by omega)
    habove hstored hq
  refine ⟨⟨_, List.getElem?_eq_getElem hlt, ?_⟩, _, hQ, fun y hy => ?_⟩
  · -- the quorum test looks at the term of the entry
    have htest := (of_decide_eq_true hq).1
    rw [(recordAnswer_kept resp _ (s.raft.node i)).1, hun.getTerm, termAt, if_neg (by omega)] at htest
    have hget : (s.raft.node i).log.entries[(n - 1).toNat]? =
        some ((H.log (s.view i).term)[(n - 1).toNat]) := by
      rw [← List.getElem?_eq_getElem hlt, ← hhist]
      rfl
    rw [hget] at htest
    exact htest
  · rcases Finset.mem_insert.mp hy with rfl | hy
    · exact Or.inl ⟨hlead, hlt⟩
    · obtain ⟨hy, hne, hle⟩ := Finset.mem_filter.mp hy
      exact h.progress_record hi hans.sent hans.payload hans.src hans.followerId
        (fun _ _ => hans.term) hrole y (List.mem_toFinset.mp hy) hne _ (by omega)

theorem effect_of_commit
    (hto : CommitsTo ((s.raft.node i).recordPacket pkt resp) n eng) (hlog : LogEffect cfg s H i eng [] H) :
    SafetyEffect cfg s H i eng [] H := by
  have hchosen := chosen_of_hasQuorum h hi hrole hans habove hstored hq
  obtain ⟨hkept, -, -, hcalls⟩ := recordPacket_kept (s.raft.node i) pkt resp
  have hentries : eng.log.entries = s.entries i := by
    rw [hto.entries, hkept]
    rfl
  have hnonneg := h.nonneg i hi
  refine ⟨hlog, ?_, by simp, Or.inl (by rw [hentries]), ?_, fun hrole y hy hne k hk => ?_, by simp, ?_,
    fun k hk => ?_, fun call hcall => ?_⟩
  · rw [hentries]
    exact h.bounded i hi
  · exact ((h.records i hi).record hans.member hans.other hans.src hans.senderId
      hans.followerId).congr hto.followers
  · rw [matchOf, hto.followers] at hk
    exact h.progress_record hi hans.sent hans.payload hans.src hans.followerId (fun _ _ => hans.term)
      hrole y hy hne k hk
  · rw [hto.commitIndex, hkept]
    exact hnonneg.trans (le_max_left _ _)
  · rw [hto.commitIndex, hkept] at hk
    rw [hentries]
    rcases lt_max_iff.mp hk with hk | hk
    · exact h.commits i hi k hk
    · refine ⟨(s.view i).term, (n - 1).toNat, le_rfl, by omega, hchosen, ?_⟩
      rw [(h.log.leads i hi hrole).2]
  · obtain ⟨calls, heq, hnew⟩ := hto.calls
    rw [heq, hcalls, List.mem_append] at hcall
    exact hcall.imp_right (hnew call)

end commit

section accept

variable {req : AppendEntriesRequest} {L : List LogEntry} {res : Except PyError AppendEntriesResponse}
  (hL : L <+: H.log req.term) (hbuilt : BuiltFrom req L)
  (hacc : Accepts (s.raft.node i) (s.view i).term req L eng res)
include hL hbuilt hacc

/-- **A follower within reach ends with a beginning of the log of the request's term.** -/
theorem entries_isPrefix_of_accepts (hreach : WithinReach (s.raft.node i).log req) :
    eng.log.entries <+: H.log req.term := by
  have hun := h.log.uncompacted i hi
  have hnum : ContiguousFrom 1 L := (h.log.numbered req.term).of_isPrefix hL
  rcases hacc.entries with ⟨heq, -⟩ | ⟨heq, hno, hlong⟩
  · rwa [heq]
  rw [heq]
  rcases hreach with hlen | hconf | hlast
  · -- the request reaches further than the leader's log: its previous entry would have term 0
    rw [hun.lastIndex, hbuilt.entries, List.length_drop] at hlen
    rcases hun.checkConsistency_iff.mp hacc.check with h0 | ⟨-, e, he, hterm⟩
    · omega
    · have hzero : e.term = 0 := by
        rw [hterm, hbuilt.prevLogTerm, termAt, if_neg (by omega),
          List.getElem?_eq_none_iff.mpr (by omega)]
        rfl
      have hpos := h.one_le_term ((h.log.logs i hi).log_ne_nil he)
      omega
  · rw [hbuilt.entries] at hconf hno
    exact absurd ((entryConflicts_iff hun hnum _).mp hconf) hno
  · have hne : s.entries i ≠ [] := List.ne_nil_of_length_pos (Nat.zero_lt_of_lt hlong)
    obtain ⟨e, -, he, hpre⟩ := (h.log.logs i hi).exists_last hne
    rw [hun.getTerm, hun.lastIndex] at hlast
    rwa [← he.symm.trans hlast]

omit h hi in
theorem isPrefix_of_accepts {P : List LogEntry} (hown : P <+: s.entries i)
    (hlead : P <+: H.log req.term) : P <+: eng.log.entries := by
  rcases hacc.entries with ⟨heq, hwhy⟩ | ⟨heq, -⟩ <;> rw [heq]
  · rcases List.prefix_or_prefix_of_prefix hlead hL with hPL | hLP
    · exact hPL
    · -- the leader's log is a beginning of the follower's, so nothing conflicts
      have hLF : L <+: s.entries i := hLP.trans hown
      have hlen : (s.entries i).length ≤ L.length := by
        refine hwhy.resolve_left fun hconf => ?_
        rw [hbuilt.entries] at hconf
        exact not_conflicts_of_common (List.prefix_refl _) hLF _ hconf
      rwa [hLF.eq_of_length_le hlen]
  · exact hown

theorem covered_of_accepts (hterm : req.term = (s.view i).term)
    (hlead : H.leader req.term ≠ none) (hreach : WithinReach (s.raft.node i).log req) (hsent : pkt ∈ s.raft.sent)
    (hreq : pkt.payload = .appendEntriesRequest req) {k : Nat} (hk : (k : Int) < eng.log.commitIndex) :
    Covered cfg s.raft.sent H (s.view i).term eng.log.entries k := by
  have hpre := entries_isPrefix_of_accepts h hi hL hbuilt hacc hreach
  rw [hacc.commitIndex] at hk
  rcases lt_max_iff.mp hk with hk | hk
  · -- it was committed before, and the merge has not touched it
    have hle := RaftLog.mergedCommit_le (s.raft.node i).log req.prevLogIndex.toNat req.entries
    obtain ⟨T, m, hT, hkm, hchosen, htake⟩ := h.commits i hi k (hk.trans_le hle)
    refine ⟨T, m, hT, hkm, hchosen, htake ▸ ?_⟩
    have hun := h.log.uncompacted i hi
    have hsame := RaftLog.merged_take_commit hun (RaftLog.prev_le_length hun hacc.check).2
      (h.commitIndex_le_length hi) req.entries
    rw [← hacc.merged] at hsame
    have hboth := congrArg (List.take (k + 1)) hsame
    rwa [List.take_take, List.take_take, min_eq_left (by omega)] at hboth
  · -- the leader had committed it
    obtain ⟨T, m, hT, hkm, hchosen⟩ := h.requests pkt hsent req hreq k (by omega)
    have hheld := h.upTo_isPrefix_log hT hlead hchosen.choosable hchosen.1
    refine ⟨T, m, hterm ▸ hT, hkm, hchosen, ?_⟩
    have hlen := length_upTo hchosen.1
    calc eng.log.entries.take (k + 1)
        = (H.log req.term).take (k + 1) := by
          rw [List.prefix_iff_eq_take.mp hpre, List.take_take, min_eq_left (by omega)]
      _ = (upTo H T m).take (k + 1) := by
          rw [List.prefix_iff_eq_take.mp hheld, List.take_take, min_eq_left (by omega)]
      _ = (H.log T).take (k + 1) := by rw [upTo, List.take_take, min_eq_left (by omega)]

theorem effect_of_accept (hterm : req.term = (s.view i).term) {a : String}
    (hlead : H.leader req.term = some a) (hreach : WithinReach (s.raft.node i).log req) (hsent : pkt ∈ s.raft.sent)
    (hreq : pkt.payload = .appendEntriesRequest req) (hlog : LogEffect cfg s H i eng out H)
    (hout : ∀ m ∈ out, ∃ resp, res = .ok resp ∧ m = (pkt.src, .appendEntriesResponse resp)) :
    SafetyEffect cfg s H i eng out H := by
  have hpre := entries_isPrefix_of_accepts h hi hL hbuilt hacc hreach
  have hled : H.leader req.term ≠ none := by simp [hlead]
  refine ⟨hlog, fun e he => ?_, fun m hm resp hresp _ => ?_, Or.inr ⟨hterm ▸ hled, ?_⟩,
    (h.records i hi).congr hacc.followers, fun hrole x hx hne k hk => ?_, fun m hm req' hreq' => ?_, ?_,
    fun k hk => ?_, fun call hcall => ?_⟩
  · exact hterm ▸ h.boundedLog req.term e (hpre.subset he)
  · obtain ⟨resp', hres, rfl⟩ := hout m hm
    simp only [RaftMsg.appendEntriesResponse.injEq] at hresp
    subst hresp
    rw [hacc.answer resp' hres, ← hterm]
    exact ⟨h.log.nodeId i hi, max_self _, le_rfl, hpre⟩
  · intro P hown hP
    exact isPrefix_of_accepts hL hbuilt hacc hown (hterm ▸ hP)
  · rw [matchOf, hacc.followers] at hk
    exact h.progress i hi hrole x hx hne k hk
  · obtain ⟨resp, -, rfl⟩ := hout m hm
    simp at hreq'
  · have hnonneg := h.nonneg i hi
    rw [hacc.commitIndex]
    unfold RaftLog.mergedCommit
    rw [(h.log.uncompacted i hi).noSnapshot]
    split_ifs <;> omega
  · exact covered_of_accepts h hi hL hbuilt hacc hterm hled hreach hsent hreq hk
  · obtain ⟨calls, heq, hnew⟩ := hacc.calls
    rw [heq, List.mem_append] at hcall
    exact hcall.imp_right (hnew call)

end accept

theorem effect_of_move (hok : Careful cfg s (.raft ev)) {input : EngineInput}
    (hmove : Move (s.view i) (cfg.peers i) (s.raft.node i) input eng out)
    (hrecv : ∀ pkt, input.packet? = some pkt → pkt ∈ s.raft.sent ∧ pkt.dst = cfg.addr i ∧
      RaftNet.received cfg s.raft ev = some (i, pkt)) :
    ∃ H', SafetyEffect cfg s H i eng out H' := by
  obtain ⟨H', hlog⟩ := h.log.effect_of_move hi hok.unchallenged hmove hrecv
  have hun := h.log.uncompacted i hi
  -- only a proposal makes the log of a term longer
  have hsame : eng.log.entries = s.entries i → H' = H := by
    intro hentries
    rcases hlog.history with rfl | ⟨-, e, -, happ, -⟩
    · rfl
    · have := congrArg List.length (happ.symm.trans hentries)
      simp at this
  cases hmove with
  | quiet hkept _ hfol _ hcalls hout =>
    obtain rfl := hsame (congrArg _ hkept)
    refine ⟨H', h.effect_of_kept hi hlog hkept hcalls ((h.records i hi).congr hfol) ?_ (by simp [hout])⟩
    intro hrole x hx hne k hk
    rw [matchOf, hfol] at hk
    exact h.progress i hi hrole x hx hne k hk
  | propose hrole e eng₁ happ now hrest =>
    have hentries := entries_of_propose happ hrest
    obtain rfl : H' = H.append (s.view i).term e := by
      rcases hlog.history with rfl | ⟨-, f, -, happ', rfl⟩
      · have hlen := congrArg List.length (hentries.symm.trans (hlog.leads hrole))
        rw [← (h.log.leads i hi hrole).2] at hlen
        simp at hlen
      · rw [hentries, List.append_cancel_left_eq, List.singleton_inj] at happ'
        rw [happ']
    exact ⟨_, h.effect_of_propose hi hrole happ hlog hrest⟩
  | broadcast hrole now hkept hout =>
    subst hkept hout
    obtain rfl := hsame rfl
    exact ⟨H', h.effect_of_kept hi hlog rfl rfl (h.records i hi) (h.progress i hi)
      fun m hm => Or.inl (requests_of_leader hun m hm)⟩
  | refuse pkt req _ _ hkept resp hfail _ hout =>
    subst hkept hout
    obtain rfl := hsame rfl
    refine ⟨H', h.effect_of_kept hi hlog rfl rfl (h.records i hi) (h.progress i hi) fun m hm => ?_⟩
    rw [List.mem_singleton.mp hm]
    exact Or.inr ⟨resp, rfl, hfail⟩
  | accept pkt req hin hreq res hacc hout =>
    obtain ⟨hsent, hdst, hev⟩ := hrecv pkt hin
    obtain ⟨a, hlead, hne, -, L, hL, hbuilt⟩ := h.log.request hsent hdst hreq
    have hacc := h.log.accepts hi hL hbuilt hacc
    obtain ⟨hterm, hreach⟩ := hok.requests (i, req) (Cluster.requested_eq_some hev hreq)
      ⟨hacc.term_le, hacc.check⟩
    obtain rfl : H' = H := by
      rcases hlog.history with rfl | ⟨hrole, -⟩
      · rfl
      · -- the leader of the term does not take a request of the term from another node
        have hself := (h.log.leads i hi hrole).1
        rw [← hterm, hlead, Option.some.injEq] at hself
        exact absurd hself.symm hne
    exact ⟨H', effect_of_accept h hi hL hbuilt hacc hterm hlead hreach hsent hreq hlog hout⟩
  | record pkt resp hin hresp heng hout =>
    obtain ⟨hsent, hdst, hev⟩ := hrecv pkt hin
    obtain ⟨x, hx, hne, hsrc, hid, hfid⟩ := h.log.answer hsent hdst hresp
    obtain ⟨hkept, -, -, hcalls⟩ := recordPacket_kept (s.raft.node i) pkt resp
    subst heng hout
    obtain rfl := hsame (congrArg _ hkept)
    exact ⟨H', h.effect_of_kept hi hlog hkept hcalls ((h.records i hi).record hx hne hsrc hid hfid)
      (h.progress_record hi hsent hresp hsrc hfid
        (hok.answers (i, resp) (Cluster.answered_eq_some hev hresp))) (by simp)⟩
  | commit pkt resp hin hresp hs hrole n habove hstored hq hto hout =>
    obtain ⟨hsent, hdst, hev⟩ := hrecv pkt hin
    obtain ⟨x, hx, hne, hsrc, hid, hfid⟩ := h.log.answer hsent hdst hresp
    have hans : CountedAnswer cfg s i x pkt resp :=
      ⟨hsent, hresp, hs, hx, hne, hsrc, hid, hfid,
        hok.answers (i, resp) (Cluster.answered_eq_some hev hresp) hrole hs,
        hok.tallies ev rfl i pkt resp hev hresp hs hrole⟩
    subst hout
    obtain rfl := hsame (by rw [hto.entries, (recordAnswer_kept resp _ (s.raft.node i)).1]; rfl)
    exact ⟨H', effect_of_commit h hi hrole hans habove hstored hq hto hlog⟩

end SafetyInv

theorem SafetyInv.step (h : SafetyInv cfg s H) (ev : ClusterEvent) (hok : Careful cfg s ev) :
    ∃ H', SafetyInv cfg (s.step cfg ev) H' := by
  cases ev with
  | election ev =>
    rw [Cluster.step]
    rcases ElectionNet.step_cases s.election ev with heq | ⟨i, hi, input, st, out, hmove, hrecv, heq⟩
    · rw [heq]
      exact ⟨H, h⟩
    · rw [heq]
      by_cases hp : LogInv.Promoted s i st
      · exact ⟨_, update_promoted h hi hmove hrecv hok hp⟩
      · exact ⟨H, update_election h hi hmove hrecv hok hp⟩
  | raft ev =>
    rw [Cluster.step]
    rcases RaftNet.step_cases h.log.noSnapshots h.log.uncompacted s.view ev with
      heq | ⟨i, hi, input, eng, out, hmove, hrecv, heq⟩
    · rw [heq]
      exact ⟨H, h⟩
    · rw [heq]
      obtain ⟨H', heff⟩ := h.effect_of_move hi hok hmove hrecv
      exact ⟨H', h.update hi heff⟩

end MeshWeaver
