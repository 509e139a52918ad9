import MeshWeaver.Cluster.Chosen

/-!
# Leader completeness

A follower keeps what it has vouched for as long as it is choosable (`acked`), and the log of every later leader
holds it (`complete`): a majority that elects the leader meets any majority that makes the position choosable in a
voter that had vouched for it before it voted, and the candidate's log was at least as up to date as the voter's
(`granted`). The engines do not ensure what this needs; `Careful` collects it, step by step.
-/

namespace MeshWeaver

open Lib ElectionNet
open RaftReplicationEngine

/-! ### The condition on single steps -/

/-- The vote request meets a free vote in its term. -/
def WouldGrant (st : ElectionState) (req : VoteRequest) : Prop :=
  st.currentTerm < req.term ∨
    st.currentTerm = req.term ∧ (st.votedFor = none ∨ st.votedFor = some req.candidateId)
deriving Decidable

/-- The log does not reach beyond the request, is cut by it, or ends in the request's term. -/
def WithinReach (log : RaftLog) (req : AppendEntriesRequest) : Prop :=
  log.lastIndex ≤ req.prevLogIndex + req.entries.length ∨ EntryConflicts log req.entries ∨
    log.getTerm log.lastIndex = req.term
deriving Decidable

section steps

variable (cfg : Config) (s : Cluster) (ev : ClusterEvent)

/-- A vote is granted only to a candidate whose log is up to date. -/
def VotesUpToDate : Prop :=
  ∀ p ∈ s.asked cfg ev, WouldGrant (s.election.node p.1) p.2 →
    UpToDate (s.raft.node p.2.candidateId).log (s.raft.node p.1).log
deriving Decidable

/-- A candidate that counts a vote has no progress recorded. -/
def RecordsFresh : Prop :=
  ∀ p ∈ s.voted cfg ev, (s.view p.1).role = .candidate →
    p.2.voteGranted = true ∧ p.2.term = (s.view p.1).term →
    ∀ q ∈ (s.raft.node p.1).followers.values, q.matchIndex ≤ 0
deriving Decidable

/-- A request is accepted only in the receiver's own term and within reach. -/
def RequestsCurrent : Prop :=
  ∀ p ∈ s.requested cfg ev, WouldAccept (s.view p.1).term (s.raft.node p.1).log p.2 →
    p.2.term = (s.view p.1).term ∧ WithinReach (s.raft.node p.1).log p.2
deriving Decidable

/-- A leader counts a success only of its own term. -/
def AnswersCurrent : Prop :=
  ∀ p ∈ s.answered cfg ev, (s.view p.1).role = .leader → p.2.success = true →
    p.2.term = (s.view p.1).term
deriving Decidable

/-- **A careful step**: the four conditions above hold, and counting a follower under two names does
not make a quorum. -/
structure Careful : Prop where
  votes : VotesUpToDate cfg s ev
  promotions : RecordsFresh cfg s ev
  requests : RequestsCurrent cfg s ev
  answers : AnswersCurrent cfg s ev
  tallies : ∀ rev, ev = .raft rev → RaftNet.SafeTallies cfg s.view s.raft rev

end steps

/-! ### The invariant -/

section invariant

variable (cfg : Config) (s : Cluster) (sent : List (Packet RaftMsg)) (H : History)

/-- Position `k` of the log `es` is covered by a chosen position of a term up to `bound`. -/
def Covered (bound : Int) (es : List LogEntry) (k : Nat) : Prop :=
  ∃ T m, T ≤ bound ∧ k ≤ m ∧ Chosen cfg sent H T m ∧ es.take (k + 1) = (H.log T).take (k + 1)

structure SafetyInv : Prop where
  log : LogInv cfg s H
  bounded : ∀ i ∈ cfg.members, ∀ e ∈ s.entries i, e.term ≤ (s.view i).term
  boundedLog : ∀ T, ∀ e ∈ H.log T, e.term ≤ T
  answers : ∀ pkt ∈ s.raft.sent, ∀ resp, pkt.payload = .appendEntriesResponse resp →
    resp.success = true → resp.matchIndex ≤ (H.log resp.term).length ∧
      resp.term ≤ (s.view resp.followerId).term
  acked : ∀ x ∈ cfg.members, ∀ T k, Acked s.raft.sent H x T k → Choosable cfg s H T k → Own H T k →
    upTo H T k <+: s.entries x
  complete : ∀ T U k, T < U → H.leader U ≠ none → Choosable cfg s H T k → Own H T k →
    upTo H T k <+: H.log U
  granted : ∀ w c U, Granted cfg s.election w c U → H.leader U = none →
    s.view c = ⟨U, .candidate⟩ → ∀ T k, T < U → Acked s.raft.sent H w T k →
      Choosable cfg s H T k → Own H T k → upTo H T k <+: s.entries c
  records : ∀ i ∈ cfg.members, Records cfg i (s.raft.node i)
  progress : ∀ a ∈ cfg.members, (s.view a).role = .leader → ∀ x ∈ cfg.members, x ≠ a →
    ∀ k : Nat, (k : Int) < (s.raft.node a).matchOf (.addr (cfg.addr x)) →
      Acked s.raft.sent H x (s.view a).term k
  requests : ∀ pkt ∈ s.raft.sent, ∀ req, pkt.payload = .appendEntriesRequest req →
    ∀ k : Nat, (k : Int) < req.leaderCommit →
      ∃ T m, T ≤ req.term ∧ k ≤ m ∧ Chosen cfg s.raft.sent H T m
  nonneg : ∀ x ∈ cfg.members, 0 ≤ (s.raft.node x).log.commitIndex
  commits : ∀ x ∈ cfg.members, ∀ k : Nat, (k : Int) < (s.raft.node x).log.commitIndex →
    Covered cfg s.raft.sent H (s.view x).term (s.entries x) k
  calls : ∀ x ∈ cfg.members, ∀ call ∈ (s.raft.node x).applyCalls,
    ∃ T m k, k ≤ m ∧ Chosen cfg s.raft.sent H T m ∧ (H.log T)[k]? = some call.entry

end invariant

variable {cfg : Config} {s s' : Cluster} {sent sent' : List (Packet RaftMsg)} {H H' : History}
  {T U : Int} {k : Nat}

theorem take_log_mono (h : k < (H.log T).length) (hext : H.Extends H') :
    (H'.log T).take (k + 1) = (H.log T).take (k + 1) := by
  rw [List.prefix_iff_eq_take.mp (hext.log T), List.take_take, min_eq_left (by omega)]

theorem Covered.mono {bound bound' : Int} {es : List LogEntry} (h : Covered cfg sent H bound es k)
    (hsent : ∀ pkt ∈ sent, pkt ∈ sent') (hext : H.Extends H') (hle : bound ≤ bound') :
    Covered cfg sent' H' bound' es k := by
  obtain ⟨T, m, hT, hkm, hchosen, htake⟩ := h
  refine ⟨T, m, hT.trans hle, hkm, hchosen.mono hsent hext, ?_⟩
  have := hchosen.1.lt_length
  rw [htake, take_log_mono (by omega) hext]

theorem Covered.lt_length {bound : Int} {es : List LogEntry} (h : Covered cfg sent H bound es k) : k < es.length := by
  obtain ⟨T, m, -, hkm, hchosen, htake⟩ := h
  have hlt := hchosen.1.lt_length
  have hlen := congrArg List.length htake
  simp only [List.length_take] at hlen
  omega

theorem Choosable.back (h : Choosable cfg s' H' T k)
    (hback : ∀ x, Acked s'.raft.sent H' x T k → Acked s.raft.sent H x T k ∨ (s.view x).term ≤ T)
    (hterm : ∀ x, (s.view x).term ≤ (s'.view x).term) : Choosable cfg s H T k := by
  obtain ⟨Q, hQ, hmem⟩ := h
  refine ⟨Q, hQ, fun x hx => ?_⟩
  rcases hmem x hx with hacked | hle
  · exact hback x hacked
  · exact Or.inr ((hterm x).trans hle)

namespace SafetyInv

theorem init (cfg : Config) : SafetyInv cfg Cluster.init History.init where
  log := LogInv.init cfg
  bounded := by simp [Cluster.entries, Cluster.init, RaftNet.init, RaftReplicationEngine.init,
    RaftLog.empty]
  boundedLog := by simp [History.init]
  answers := by simp [Cluster.init, RaftNet.init]
  acked := by simp [Own, History.init]
  complete := by simp [History.init]
  granted := by simp [Own, History.init]
  records := fun i _ => Records.init cfg i
  progress := by
    simp [Cluster.view, Cluster.init, ElectionNet.init, ElectionState.init]
  requests := by simp [Cluster.init, RaftNet.init]
  nonneg := fun _ _ => le_rfl
  commits := by
    intro x _ k hk
    simp [Cluster.init, RaftNet.init, RaftReplicationEngine.init, RaftLog.empty] at hk
    omega
  calls := by simp [Cluster.init, RaftNet.init, RaftReplicationEngine.init]

section

variable (h : SafetyInv cfg s H)
include h

theorem leader_ne_none (hne : H.log T ≠ []) : H.leader T ≠ none :=
  fun hnone => hne (h.log.unled T hnone)

theorem one_le_term (hne : H.log T ≠ []) : 1 ≤ T := by
  obtain ⟨a, ha⟩ := Option.ne_none_iff_exists'.mp (h.leader_ne_none hne)
  exact (h.log.led T a ha).2.2

theorem upTo_isPrefix_log (hle : T ≤ U) (hlead : H.leader U ≠ none)
    (hcan : Choosable cfg s H T k) (hown : Own H T k) : upTo H T k <+: H.log U := by
  rcases hle.eq_or_lt with rfl | hlt
  · exact List.take_prefix _ _
  · exact h.complete T U k hlt hlead hcan hown

theorem upTo_isPrefix_candidate {w c : String} (hw : w ∈ cfg.members)
    (hc : c ∈ cfg.members) (hup : UpToDate (s.raft.node c).log (s.raft.node w).log)
    (hack : Acked s.raft.sent H w T k) (hcan : Choosable cfg s H T k) (hown : Own H T k) :
    upTo H T k <+: s.entries c := by
  have hheld := h.acked w hw T k hack hcan hown
  have hpos := h.one_le_term (List.ne_nil_of_length_pos (Nat.zero_lt_of_lt hown.lt_length))
  exact upTo_isPrefix_of_upToDate (h.log.uncompacted c hc) (h.log.uncompacted w hw) (h.log.logs c hc)
    (h.log.logs w hw) h.boundedLog hup (by omega) hown hheld
    fun U hU hne => h.complete T U k hU (h.leader_ne_none hne) hcan hown

end

/-! ### Steps of the election engines -/

section election

variable {i : String} {input : ElectionState.ElectionInput} {st : ElectionState}
  {out : List (Address × ElectionMsg)} {ev : ElectionEvent}

theorem view_update (j : String) : (s.electionMoves cfg i st out).view j =
    if j = i then ⟨st.currentTerm, st.role⟩ else s.view j := by
  simp only [Cluster.view, Net.update_node]
  split_ifs <;> rfl

variable (h : SafetyInv cfg s H) (hi : i ∈ cfg.members)
  (hmove : ElectionState.Move i (cfg.peers i) (s.election.node i) input st out)
  (hrecv : ∀ pkt, input = .receive pkt → received cfg s.election ev = some (i, pkt))
  (hok : Careful cfg s (.election ev))
include h hi hmove hrecv hok

omit h hi hrecv hok in
theorem term_le_view (j : String) : (s.view j).term ≤ ((s.electionMoves cfg i st out).view j).term :=
  term_le_update hmove j

theorem granted_of_move {w c : String} (hg : Granted cfg (s.election.update i st (cfg.mail i out)) w c U)
    (hnone : H.leader U = none) (hview : (s.electionMoves cfg i st out).view c = ⟨U, .candidate⟩) (hlt : T < U)
    (hack : Acked s.raft.sent H w T k) (hcan : Choosable cfg s H T k) (hown : Own H T k) : upTo H T k <+: s.entries c := by
  have hinv := h.log.election
  have hrecv' := fun pkt hpkt => received_spec (hrecv pkt hpkt)
  rw [view_update] at hview
  rcases granted_update hinv hmove hrecv' hg with hold | ⟨rfl, hnew⟩
  · refine h.granted w c U hold hnone ?_ T k hlt hack hcan hown
    split_ifs at hview with hci
    · -- the candidate itself moved: it was a candidate in this term before
      subst hci
      simp only [View.mk.injEq] at hview
      obtain ⟨rfl, hrole⟩ := hview
      obtain ⟨hstood, hterm⟩ := stood_before hinv hmove (by simp [hrole])
        (fun hlead hsame => by simp [leader_kept hmove hsame hlead] at hrole) hold
      simp [Cluster.view, hstood, hterm]
    · exact hview
  · -- the vote just granted
    obtain ⟨pkt, req, hin, hreq, rfl, hterm⟩ := hnew.request
    have hwould : WouldGrant (s.election.node w) req := by
      rw [WouldGrant, hterm]
      exact hnew.free
    have hup := hok.votes (w, req) (Cluster.asked_eq_some (hrecv pkt hin) hreq) hwould
    exact h.upTo_isPrefix_candidate hi hnew.member hup hack hcan hown

theorem update_election (hp : ¬ LogInv.Promoted s i st) :
    SafetyInv cfg (s.electionMoves cfg i st out) H := by
  have hrecv' := fun pkt hpkt => received_spec (hrecv pkt hpkt)
  have hterm : ∀ j, (s.view j).term ≤ ((s.electionMoves cfg i st out).view j).term := term_le_view hmove
  have hback : ∀ {T k}, Choosable cfg (s.electionMoves cfg i st out) H T k → Choosable cfg s H T k :=
    fun hcan => hcan.back (fun _ => Or.inl) hterm
  refine ⟨h.log.update_election hi hmove hrecv' hp, fun j hj e he => ?_, h.boundedLog,
    fun pkt hpkt resp hresp hs => ?_, fun x hx T k hack hcan hown => ?_,
    fun T U k hlt hlead hcan hown => ?_, fun w c U hg hnone hview T k hlt hack hcan hown => ?_,
    h.records, fun a ha hrole => ?_, h.requests, h.nonneg, fun x hx k hk => ?_, h.calls⟩
  · exact (h.bounded j hj e he).trans (hterm j)
  · obtain ⟨hmatch, hle⟩ := h.answers pkt hpkt resp hresp hs
    exact ⟨hmatch, hle.trans (hterm _)⟩
  · exact h.acked x hx T k hack (hback hcan) hown
  · exact h.complete T U k hlt hlead (hback hcan) hown
  · exact granted_of_move h hi hmove hrecv hok hg hnone hview hlt hack (hback hcan) hown
  · have hold : (s.view a).role = .leader ∧
        ((s.electionMoves cfg i st out).view a).term = (s.view a).term := by
      rw [view_update] at hrole ⊢
      split_ifs at hrole ⊢ with hai
      · subst hai
        exact LogInv.leads_of_not_promoted hp hrole
      · exact ⟨hrole, rfl⟩
    rw [hold.2]
    exact h.progress a ha hold.1
  · exact (h.commits x hx k hk).mono (fun _ => id) H.extends_refl (hterm x)

omit h hi in
theorem matchOf_le_zero (hp : LogInv.Promoted s i st) {x : String} (hx : x ∈ cfg.members)
    (hne : x ≠ i) : (s.raft.node i).matchOf (.addr (cfg.addr x)) ≤ 0 := by
  obtain ⟨hlead, hfresh⟩ := hp
  cases hmove with
  | quiet hr hterm => exact absurd hterm (hfresh (hr.symm.trans hlead))
  | start hrole =>
    rcases hrole with hr | ⟨-, halone⟩
    · simp [hlead] at hr
    · -- a member without peers is the only one
      have hpeer : cfg.addr x ∈ cfg.peers i := Config.mem_peers.mpr ⟨x, hx, hne, rfl⟩
      simp [halone] at hpeer
  | adopt hr | abandon _ hr => simp [hlead] at hr
  | grant _ _ _ _ hr hterm =>
    rcases hr with ⟨hsame, hr, -⟩ | ⟨-, hfol⟩
    · exact absurd (hterm.trans hsame.symm) (hfresh (hr.symm.trans hlead))
    · simp [hlead] at hfol
  | count pkt resp hin hresp hgranted hcur hcand =>
    have hnone := hok.promotions (i, resp) (Cluster.voted_eq_some (hrecv pkt hin) hresp) hcand
      ⟨hgranted, hcur⟩
    unfold matchOf
    cases hget : (s.raft.node i).followers.get? (.addr (cfg.addr x)) with
    | none => exact le_rfl
    | some q =>
      exact hnone q (List.mem_map_of_mem (f := Prod.snd) ((Dict.mem_items_iff _ _ _).mpr hget))

omit hok in
/-- **The log of a new leader holds what is choosable**: some voter had vouched for it. -/
theorem upTo_isPrefix_promoted (hp : LogInv.Promoted s i st) (hlt : T < st.currentTerm)
    (hcan : Choosable cfg (s.electionMoves cfg i st out) H T k)
    (hown : Own H T k) : upTo H T k <+: s.entries i := by
  have hinv := h.log.election
  have hrecv' := fun pkt hpkt => received_spec (hrecv pkt hpkt)
  have hinv' := inv_update hinv hmove hrecv' hi
  have hwon := won_update hinv hmove hrecv' hi hp.1
  have hnone := h.log.leader_eq_none hi hmove hrecv' hp
  have hcan₀ : Choosable cfg s H T k := hcan.back (fun _ => Or.inl) (term_le_view hmove)
  obtain ⟨Q, hQ, hmem⟩ := hcan
  obtain ⟨R, hR, hvotes⟩ := hwon.quorum
  obtain ⟨x, hxQ, hxR⟩ := hQ.exists_mem_both hR
  have hxm : x ∈ cfg.members := List.mem_toFinset.mp (hQ.1 hxQ)
  -- the voter has left term `T`, so it has vouched
  have hleft : st.currentTerm ≤ ((s.electionMoves cfg i st out).view x).term := by
    rcases hvotes x hxR with rfl | hg
    · simp [view_update]
    · exact hinv'.grantTerm x i _ hg
  have hack : Acked s.raft.sent H x T k := (hmem x hxQ).resolve_right (by omega)
  rcases hvotes x hxR with rfl | hg
  · exact h.acked x hxm T k hack hcan₀ hown
  · rcases granted_update hinv hmove hrecv' hg with hold | ⟨rfl, -⟩
    · obtain ⟨hstood, hterm⟩ := stood_before hinv hmove (by simp [hp.1]) hp.2 hold
      exact h.granted x i _ hold hnone (by simp [Cluster.view, hstood, hterm]) T k hlt hack hcan₀ hown
    · exact h.acked x hxm T k hack hcan₀ hown

theorem update_promoted (hp : LogInv.Promoted s i st) :
    SafetyInv cfg (s.electionMoves cfg i st out) (H.promote st.currentTerm i (s.entries i)) := by
  have hrecv' := fun pkt hpkt => received_spec (hrecv pkt hpkt)
  have hterm : ∀ j, (s.view j).term ≤ ((s.electionMoves cfg i st out).view j).term := term_le_view hmove
  have hnone := h.log.leader_eq_none hi hmove hrecv' hp
  have hnil := h.log.unled _ hnone
  have hext := History.extends_promote hnone hnil i (s.entries i)
  -- nothing new becomes choosable
  have hold : ∀ {T k}, Own (H.promote st.currentTerm i (s.entries i)) T k →
      T ≠ st.currentTerm ∧ Own H T k ∧
        upTo (H.promote st.currentTerm i (s.entries i)) T k = upTo H T k := by
    intro T k hown
    obtain ⟨hne, hown⟩ := hown.of_promote (h.log.logs i hi) hnil
    exact ⟨hne, hown, upTo_mono hown hext⟩
  have hcanon : ∀ {T k}, T ≠ st.currentTerm →
      Choosable cfg (s.electionMoves cfg i st out) (H.promote st.currentTerm i (s.entries i)) T k →
      Choosable cfg (s.electionMoves cfg i st out) H T k :=
    fun hne hcan => hcan.back (fun _ hack => Or.inl (hack.of_promote hne)) fun _ => le_rfl
  have hback : ∀ {T k}, T ≠ st.currentTerm →
      Choosable cfg (s.electionMoves cfg i st out) (H.promote st.currentTerm i (s.entries i)) T k →
        Choosable cfg s H T k :=
    fun hne hcan => (hcanon hne hcan).back (fun _ => Or.inl) hterm
  refine ⟨h.log.update_promoted hi hmove hrecv' hp, fun j hj e he => ?_, fun T e he => ?_,
    fun pkt hpkt resp hresp hs => ?_, fun x hx T k hack hcan hown => ?_,
    fun T U k hlt hlead hcan hown => ?_, fun w c U hg hU hview T k hlt hack hcan hown => ?_,
    h.records, fun a ha hrole x hx hne k hk => ?_, fun pkt hpkt req hreq k hk => ?_, h.nonneg,
    fun x hx k hk => ?_, fun x hx call hcall => ?_⟩
  · exact (h.bounded j hj e he).trans (hterm j)
  · by_cases hT : T = st.currentTerm
    · rw [hT, History.promote_log_self] at he
      have hle := hterm i
      rw [view_update, if_pos rfl] at hle
      exact hT ▸ (h.bounded i hi e he).trans hle
    · rw [History.promote_log_of_ne hT] at he
      exact h.boundedLog T e he
  · obtain ⟨hmatch, hle⟩ := h.answers pkt hpkt resp hresp hs
    have := (hext.log resp.term).length_le
    exact ⟨by omega, hle.trans (hterm _)⟩
  · obtain ⟨hne, hown, hupTo⟩ := hold hown
    rw [hupTo]
    exact h.acked x hx T k (hack.of_promote hne) (hback hne hcan) hown
  · obtain ⟨hne, hown, hupTo⟩ := hold hown
    rw [hupTo]
    by_cases hU : U = st.currentTerm
    · rw [hU, History.promote_log_self]
      exact upTo_isPrefix_promoted h hi hmove hrecv hp (hU ▸ hlt) (hcanon hne hcan) hown
    · rw [History.promote_leader_of_ne hU] at hlead
      rw [History.promote_log_of_ne hU]
      exact h.complete T U k hlt hlead (hback hne hcan) hown
  · obtain ⟨hne, hown, hupTo⟩ := hold hown
    have hUne : U ≠ st.currentTerm := by
      rintro rfl
      simp at hU
    rw [History.promote_leader_of_ne hUne] at hU
    rw [hupTo]
    exact granted_of_move h hi hmove hrecv hok hg hU hview hlt (hack.of_promote hne)
      (hback hne hcan) hown
  · rw [view_update] at hrole ⊢
    split_ifs at hrole ⊢ with hai
    · -- the new leader has not recorded anything
      subst hai
      have hzero := matchOf_le_zero hmove hrecv hok hp hx hne
      exact absurd (hk.trans_le hzero) (by simp)
    · exact (h.progress a ha hrole x hx hne k hk).mono (fun _ => id) hext
  · obtain ⟨T, m, hT, hkm, hchosen⟩ := h.requests pkt hpkt req hreq k hk
    exact ⟨T, m, hT, hkm, hchosen.mono (fun _ => id) hext⟩
  · exact (h.commits x hx k hk).mono (fun _ => id) hext (hterm x)
  · obtain ⟨T, m, k, hkm, hchosen, hget⟩ := h.calls x hx call hcall
    exact ⟨T, m, k, hkm, hchosen.mono (fun _ => id) hext, getElem?_of_isPrefix (hext.log T) hget⟩

end election

end SafetyInv

end MeshWeaver
