import MeshWeaver.Election.Network

/-!
# Election safety

A node that votes for itself and then gives up its candidacy on a heartbeat of its own term is free to vote again in
that term, so "one vote a term" is false of self-votes. What holds is that a vote *granted to another node* is the
only one a node grants in its term (`grantUnique`), and that a node that has won a term never grants one in it
(`Won.grantsNone`). Both are stated over the grants ever sent, which no step takes back, so two victories in one
term meet in a common voter.
-/

namespace MeshWeaver

open Lib Net

namespace ElectionNet

open ElectionState

variable {cfg : Config} {s s' : ElectionNet} {T : Int}

/-- Member `w` has sent member `c` its vote for term `T`. -/
def Granted (cfg : Config) (s : ElectionNet) (w c : String) (T : Int) : Prop :=
  (⟨cfg.addr w, cfg.addr c, w, .voteResponse ⟨T, true, w⟩⟩ : Packet ElectionMsg) ∈ s.sent

/-- **The record of a victory**: a majority voted for `a` in term `T`, and `a` granted no vote in it
and is still its leader if it has not moved on. -/
structure Won (cfg : Config) (s : ElectionNet) (T : Int) (a : String) : Prop where
  quorum : ∃ Q, Majority cfg.members.toFinset Q ∧ ∀ w ∈ Q, w = a ∨ Granted cfg s w a T
  grantsNone : ∀ c, ¬ Granted cfg s a c T
  leads : T < (s.node a).currentTerm ∨ (s.node a).currentTerm = T ∧ (s.node a).role = .leader

structure Inv (cfg : Config) (s : ElectionNet) : Prop where
  term_nonneg : ∀ i, 0 ≤ (s.node i).currentTerm
  term_pos : ∀ i, (s.node i).role ≠ .follower → 1 ≤ (s.node i).currentTerm
  requests : ∀ pkt ∈ s.sent, ∀ req, pkt.payload = .voteRequest req →
    ∃ c ∈ cfg.members, ∃ w ∈ cfg.members, c ≠ w ∧ req.candidateId = c ∧ pkt.src = cfg.addr c ∧
      pkt.dst = cfg.addr w ∧ req.term ≤ (s.node c).currentTerm
  grants : ∀ pkt ∈ s.sent, ∀ resp, pkt.payload = .voteResponse resp → resp.voteGranted = true →
    ∃ w ∈ cfg.members, ∃ c ∈ cfg.members, w ≠ c ∧ resp.voterId = w ∧ pkt.dst = cfg.addr c ∧
      Granted cfg s w c resp.term
  votedSelf : ∀ i, (s.node i).role ≠ .follower → (s.node i).votedFor = some i
  grantTerm : ∀ w c T, Granted cfg s w c T → T ≤ (s.node w).currentTerm
  grantedTerm : ∀ w c T, Granted cfg s w c T → T ≤ (s.node c).currentTerm
  grantVote : ∀ w c T, Granted cfg s w c T → (s.node w).currentTerm = T →
    (s.node w).votedFor = some c
  grantUnique : ∀ w c c' T, Granted cfg s w c T → Granted cfg s w c' T → c = c'
  votes : ∀ i, (s.node i).role = .candidate → ∀ w ∈ (s.node i).votesReceived,
    w = i ∨ w ∈ cfg.members ∧ Granted cfg s w i (s.node i).currentTerm
  won : ∀ i, (s.node i).role = .leader → Won cfg s (s.node i).currentTerm i

theorem inv_init (cfg : Config) : Inv cfg init where
  term_nonneg := fun _ => le_rfl
  term_pos := by simp [init, ElectionState.init]
  requests := by simp [init]
  grants := by simp [init]
  votedSelf := by simp [init, ElectionState.init]
  grantTerm := by simp [Granted, init]
  grantedTerm := by simp [Granted, init]
  grantVote := by simp [Granted, init]
  grantUnique := by simp [Granted, init]
  votes := by simp [init, ElectionState.init]
  won := by simp [init, ElectionState.init]

theorem Won.unique {a b : String} (h : Inv cfg s) (ha : Won cfg s T a) (hb : Won cfg s T b) : a = b := by
  obtain ⟨Q, hQ, hvotes⟩ := ha.quorum
  obtain ⟨R, hR, hvotes'⟩ := hb.quorum
  obtain ⟨w, hwQ, hwR⟩ := hQ.exists_mem_both hR
  rcases hvotes w hwQ with rfl | hga
  · rcases hvotes' w hwR with rfl | hgb
    · rfl
    · exact absurd hgb (ha.grantsNone b)
  · rcases hvotes' w hwR with rfl | hgb
    · exact absurd hga (hb.grantsNone a)
    · exact h.grantUnique w a b T hga hgb

/-! ### One step -/

section step

variable {i : String} {input : ElectionInput} {st : ElectionState}
  {out : List (Address × ElectionMsg)}

theorem Granted.mono {w c : String} (h : Granted cfg s w c T) : Granted cfg (s.update i st (cfg.mail i out)) w c T :=
  mem_sent_update.mpr (Or.inl h)

/-- What is known of a grant that a move sends: the vote was free, and is now given. -/
structure NewGrant (cfg : Config) (s : ElectionNet) (i : String) (input : ElectionInput)
    (st : ElectionState) (c : String) (T : Int) : Prop where
  member : c ∈ cfg.members
  other : c ≠ i
  term : st.currentTerm = T
  vote : st.votedFor = some c
  free : (s.node i).currentTerm < T ∨ (s.node i).currentTerm = T ∧
    ((s.node i).votedFor = none ∨ (s.node i).votedFor = some c)
  asked : T ≤ (s.node c).currentTerm
  request : ∃ pkt req, input = .receive pkt ∧ pkt.payload = .voteRequest req ∧
    req.candidateId = c ∧ req.term = T

variable (h : Inv cfg s) (hmove : Move i (cfg.peers i) (s.node i) input st out)
  (hrecv : ∀ pkt, input = .receive pkt → pkt ∈ s.sent ∧ pkt.dst = cfg.addr i)
include h hmove hrecv

theorem newGrant {a : Address} {resp : VoteResponse} (hmem : (a, .voteResponse resp) ∈ out)
    (hgranted : resp.voteGranted = true) :
    ∃ c T, a = cfg.addr c ∧ resp = ⟨T, true, i⟩ ∧ NewGrant cfg s i input st c T := by
  cases hmove with
  | quiet _ _ _ _ hout | adopt _ _ _ hout | abandon _ _ _ _ hout =>
    exact absurd (hout _ hmem) (by simp [Quiet, hgranted])
  | start _ _ _ _ hout => exact absurd (hout _ hmem).2 (by simp)
  | count _ _ _ _ _ _ _ _ _ _ _ hout => simp [hout] at hmem
  | grant pkt req hin hreq hrole hterm hvote hout =>
    obtain ⟨hsent, hdst⟩ := hrecv pkt hin
    obtain ⟨c, hc, w, -, hne, hcand, hsrc, hdst', hasked⟩ := h.requests pkt hsent req hreq
    have hwi : w = i := cfg.addr_injective (hdst'.symm.trans hdst)
    subst hwi
    rw [hout, List.mem_singleton, Prod.mk.injEq, ElectionMsg.voteResponse.injEq] at hmem
    refine ⟨c, req.term, hmem.1.trans hsrc, hmem.2, hc, hne, hterm, by rw [hvote, hcand], ?_, hasked,
      pkt, req, hin, hreq, hcand, rfl⟩
    rcases hrole with ⟨hsame, -, -, hfree⟩ | ⟨hlt, -⟩
    · exact Or.inr ⟨hsame, by rwa [hcand] at hfree⟩
    · exact Or.inl hlt

theorem granted_update {w c : String} (hg : Granted cfg (s.update i st (cfg.mail i out)) w c T) :
    Granted cfg s w c T ∨ w = i ∧ NewGrant cfg s i input st c T := by
  rcases mem_sent_update.mp hg with hold | hnew
  · exact Or.inl hold
  · obtain ⟨-, hid, hmem⟩ := Config.mem_mail hnew
    obtain ⟨c', T', haddr, hresp, hnewGrant⟩ := newGrant h hmove hrecv hmem rfl
    have hcc : c = c' := cfg.addr_injective haddr
    cases hresp
    exact Or.inr ⟨hid, hcc ▸ hnewGrant⟩

omit hrecv h in
theorem term_le_of_move : (s.node i).currentTerm ≤ st.currentTerm := by
  cases hmove with
  | quiet _ hterm | start _ hterm | adopt _ hterm | abandon _ _ hterm | count _ _ _ _ _ _ _ _ hterm
  | grant _ _ _ _ hrole hterm => omega

omit hrecv h in
theorem term_le_update (j : String) :
    (s.node j).currentTerm ≤ ((s.update i st (cfg.mail i out)).node j).currentTerm := by
  rw [update_node]
  split_ifs with hj
  · rw [hj]
    exact term_le_of_move hmove
  · exact le_rfl

omit hrecv in
theorem term_pos_of_move (hrole : st.role ≠ .follower) : 1 ≤ st.currentTerm := by
  have hle := term_le_of_move hmove
  have hnonneg := h.term_nonneg i
  have hpos := h.term_pos i
  cases hmove with
  | quiet hr => exact (hpos (hr ▸ hrole)).trans hle
  | start _ hterm => omega
  | adopt hr | abandon _ hr => exact absurd hr hrole
  | count _ _ _ _ _ _ hcand => exact (hpos (by simp [hcand])).trans hle
  | grant _ _ _ _ hr =>
    rcases hr with ⟨-, hr, -⟩ | ⟨-, hfol⟩
    · exact (hpos (hr ▸ hrole)).trans hle
    · exact absurd hfol hrole

omit hrecv in
theorem vote_kept {c : String} (hsame : st.currentTerm = (s.node i).currentTerm) (hne : c ≠ i)
    (hvote : (s.node i).votedFor = some c) : st.votedFor = some c := by
  cases hmove with
  | quiet _ _ hv => rw [hv, hvote]
  | start _ hterm | adopt _ hterm => omega
  | abandon hcand =>
    -- a candidate's vote is its own
    have := h.votedSelf i (by rw [hcand]; simp)
    rw [hvote, Option.some.injEq] at this
    exact absurd this hne
  | count _ _ _ _ _ _ _ _ _ hv => rw [hv, hvote]
  | grant pkt req _ _ hrole hterm hv =>
    rcases hrole with ⟨-, -, -, hfree | hfree⟩ | ⟨hlt, -⟩
    · rw [hvote] at hfree
      cases hfree
    · rw [hv, ← hfree, hvote]
    · omega

omit hrecv h in
theorem leader_kept (hsame : st.currentTerm = (s.node i).currentTerm)
    (hlead : (s.node i).role = .leader) : st.role = .leader := by
  cases hmove with
  | quiet hrole => rw [hrole, hlead]
  | start _ hterm | adopt _ hterm => omega
  | abandon hcand | count _ _ _ _ _ _ hcand => rw [hlead] at hcand; cases hcand
  | grant _ _ _ _ hrole hterm =>
    rcases hrole with ⟨-, hr, -⟩ | ⟨hlt, -⟩
    · rw [hr, hlead]
    · omega

omit hrecv in
theorem votedSelf_kept (hrole : st.role ≠ .follower) : st.votedFor = some i := by
  cases hmove with
  | quiet hr _ hv => rw [hv]; exact h.votedSelf i (hr ▸ hrole)
  | start _ _ hv => exact hv
  | adopt hr | abandon _ hr => exact absurd hr hrole
  | count _ _ _ _ _ _ hcand _ _ hv => rw [hv]; exact h.votedSelf i (by rw [hcand]; simp)
  | grant pkt req hin hreq hr hterm hv hout =>
    rcases hr with ⟨-, hsame, -, hfree⟩ | ⟨-, hfol⟩
    · have hself := h.votedSelf i (hsame ▸ hrole)
      rcases hfree with hf | hf
      · rw [hself] at hf; cases hf
      · rw [hv, ← hf, hself]
    · exact absurd hfol hrole

/-- **A victory is never undone.** -/
theorem Won.update {a : String} (hwon : Won cfg s T a) : Won cfg (s.update i st (cfg.mail i out)) T a := by
  have hterm := term_le_of_move hmove
  refine ⟨?_, fun c hg => ?_, ?_⟩
  · obtain ⟨Q, hQ, hvotes⟩ := hwon.quorum
    exact ⟨Q, hQ, fun w hw => (hvotes w hw).imp_right Granted.mono⟩
  · rcases granted_update h hmove hrecv hg with hold | ⟨rfl, hnew⟩
    · exact hwon.grantsNone c hold
    · -- while it is in the term it leads, and a leader's vote is its own
      rcases hwon.leads with hlt | ⟨hsame, hlead⟩
      · have := hnew.free
        omega
      · have hself := h.votedSelf a (by rw [hlead]; simp)
        rcases hnew.free with hlt | ⟨-, hf | hf⟩
        · omega
        · rw [hself] at hf; cases hf
        · rw [hself, Option.some.injEq] at hf; exact hnew.other hf.symm
  · by_cases ha : a = i
    · subst ha
      rw [update_node_self]
      rcases hwon.leads with hlt | ⟨hsame, hlead⟩
      · exact Or.inl (by omega)
      · rcases eq_or_lt_of_le hterm with heq | hlt
        · exact Or.inr ⟨by omega, leader_kept hmove heq.symm hlead⟩
        · exact Or.inl (by omega)
    · rw [update_node_of_ne ha]
      exact hwon.leads

omit hrecv in
theorem requests_update (hi : i ∈ cfg.members) : ∀ pkt ∈ (s.update i st (cfg.mail i out)).sent,
    ∀ req, pkt.payload = .voteRequest req →
      ∃ c ∈ cfg.members, ∃ w ∈ cfg.members, c ≠ w ∧ req.candidateId = c ∧ pkt.src = cfg.addr c ∧
        pkt.dst = cfg.addr w ∧ req.term ≤ ((s.update i st (cfg.mail i out)).node c).currentTerm := by
  intro pkt hpkt req hreq
  rcases mem_sent_update.mp hpkt with hold | hnew
  · obtain ⟨c, hc, w, hw, hne, hcand, hsrc, hdst, hterm⟩ := h.requests pkt hold req hreq
    exact ⟨c, hc, w, hw, hne, hcand, hsrc, hdst, hterm.trans (term_le_update hmove c)⟩
  obtain ⟨hsrc, -, hmem⟩ := Config.mem_mail hnew
  rw [hreq] at hmem
  cases hmove with
  | quiet _ _ _ _ hout | adopt _ _ _ hout | abandon _ _ _ _ hout => exact (hout _ hmem).elim
  | count _ _ _ _ _ _ _ _ _ _ _ hout | grant _ _ _ _ _ _ _ hout => simp [hout] at hmem
  | start _ _ _ _ hout =>
    obtain ⟨hpeer, hmsg⟩ := hout _ hmem
    obtain ⟨w, hw, hne, hdst⟩ := Config.mem_peers.mp hpeer
    rw [ElectionMsg.voteRequest.injEq] at hmsg
    exact ⟨i, hi, w, hw, hne.symm, by rw [hmsg], hsrc, hdst, by rw [hmsg, update_node_self]⟩

theorem grants_update (hi : i ∈ cfg.members) : ∀ pkt ∈ (s.update i st (cfg.mail i out)).sent,
    ∀ resp, pkt.payload = .voteResponse resp → resp.voteGranted = true →
      ∃ w ∈ cfg.members, ∃ c ∈ cfg.members, w ≠ c ∧ resp.voterId = w ∧ pkt.dst = cfg.addr c ∧
        Granted cfg (s.update i st (cfg.mail i out)) w c resp.term := by
  intro pkt hpkt resp hresp hgranted
  rcases mem_sent_update.mp hpkt with hold | hnew
  · obtain ⟨w, hw, c, hc, hne, hid, hdst, hg⟩ := h.grants pkt hold resp hresp hgranted
    exact ⟨w, hw, c, hc, hne, hid, hdst, hg.mono⟩
  obtain ⟨hsrc, hid, hmem⟩ := Config.mem_mail hnew
  rw [hresp] at hmem
  obtain ⟨c, T, hdst, rfl, hg⟩ := newGrant h hmove hrecv hmem hgranted
  refine ⟨i, hi, c, hg.member, hg.other.symm, rfl, hdst, ?_⟩
  have hpkt' : pkt = ⟨cfg.addr i, cfg.addr c, i, .voteResponse ⟨T, true, i⟩⟩ :=
    Packet.ext hsrc hdst hid hresp
  rwa [hpkt'] at hpkt

theorem votes_update (hrole : st.role ≠ .follower)
    (hfresh : (s.node i).role = .leader → st.currentTerm ≠ (s.node i).currentTerm) :
    ∀ w ∈ st.votesReceived, w = i ∨ w ∈ cfg.members ∧
      Granted cfg (s.update i st (cfg.mail i out)) w i st.currentTerm := by
  have hold : st.currentTerm = (s.node i).currentTerm → (s.node i).role ≠ .follower →
      ∀ w ∈ (s.node i).votesReceived, w = i ∨ w ∈ cfg.members ∧
        Granted cfg (s.update i st (cfg.mail i out)) w i st.currentTerm := by
    intro hterm hr w hw
    have hcand : (s.node i).role = .candidate := by
      cases hcase : (s.node i).role with
      | follower => exact absurd hcase hr
      | candidate => rfl
      | leader => exact absurd hterm (hfresh hcase)
    exact (h.votes i hcand w hw).imp_right fun hg => ⟨hg.1, by rw [hterm]; exact hg.2.mono⟩
  intro w hw
  cases hmove with
  | quiet hr hterm _ hvotes => exact hold hterm (hr ▸ hrole) w (hvotes ▸ hw)
  | start _ _ _ hvotes =>
    rw [hvotes, Finset.mem_singleton] at hw
    exact Or.inl hw
  | adopt hr | abandon _ hr => exact absurd hr hrole
  | grant pkt req _ _ hr hterm =>
    rcases hr with ⟨hsame, hr', hvotes, -⟩ | ⟨-, hfol⟩
    · exact hold (by omega) (hr' ▸ hrole) w (hvotes ▸ hw)
    · exact absurd hfol hrole
  | count pkt resp hin hresp hgranted hcur hcand _ hterm _ hvotes _ =>
    rw [hvotes, Finset.mem_insert] at hw
    rcases hw with rfl | hw
    · -- the vote that has just arrived
      obtain ⟨hsent, hdst⟩ := hrecv pkt hin
      obtain ⟨w, hw, c, -, -, hid, hdst', hg⟩ := h.grants pkt hsent resp hresp hgranted
      have hci : c = i := cfg.addr_injective (hdst'.symm.trans hdst)
      subst hci
      rw [hid, hterm, ← hcur]
      exact Or.inr ⟨hw, hg.mono⟩
    · exact hold hterm (by rw [hcand]; simp) w hw

omit hrecv in
theorem stood_before (hrole : st.role ≠ .follower)
    (hfresh : (s.node i).role = .leader → st.currentTerm ≠ (s.node i).currentTerm) {w : String}
    (hg : Granted cfg s w i st.currentTerm) :
    (s.node i).role = .candidate ∧ (s.node i).currentTerm = st.currentTerm := by
  have hle := h.grantedTerm w i _ hg
  have hsame : (s.node i).currentTerm = st.currentTerm := le_antisymm (term_le_of_move hmove) hle
  have hnot : (s.node i).role ≠ .leader := fun hlead => hfresh hlead hsame.symm
  have hcand : (s.node i).role ≠ .follower → (s.node i).role = .candidate := by
    cases hr : (s.node i).role <;> simp_all
  refine ⟨?_, hsame⟩
  cases hmove with
  | quiet hr => exact hcand (hr ▸ hrole)
  | start _ hterm => omega
  | adopt hr | abandon _ hr => exact absurd hr hrole
  | count _ _ _ _ _ _ hstood => exact hstood
  | grant _ _ _ _ hr =>
    rcases hr with ⟨-, hr, -⟩ | ⟨-, hfol⟩
    · exact hcand (hr ▸ hrole)
    · exact absurd hfol hrole

omit hrecv h in
theorem quorum_of_leader (hlead : st.role = .leader)
    (hfresh : (s.node i).role = .leader → st.currentTerm ≠ (s.node i).currentTerm) :
    requiredQuorum (cfg.peers i) ≤ st.votesReceived.card := by
  cases hmove with
  | quiet hr hterm => exact absurd hterm (hfresh (hr ▸ hlead))
  | start hrole _ _ hvotes =>
    rcases hrole with hr | ⟨-, halone⟩
    · rw [hr] at hlead; cases hlead
    · rw [halone, hvotes, Finset.card_singleton]; decide
  | adopt hr | abandon _ hr => rw [hr] at hlead; cases hlead
  | grant _ _ _ _ hr hterm =>
    rcases hr with ⟨hsame, hr', -⟩ | ⟨-, hfol⟩
    · exact absurd (hterm.trans hsame.symm) (hfresh (hr' ▸ hlead))
    · rw [hfol] at hlead; cases hlead
  | count _ _ _ _ _ _ _ hrole =>
    rcases hrole with hr | ⟨-, hq⟩
    · rw [hr] at hlead; cases hlead
    · exact hq

omit hmove hrecv in
theorem granted_ne {w c : String} (hg : Granted cfg s w c T) : w ≠ c := by
  obtain ⟨w', -, c', -, hne, hid, hdst, -⟩ := h.grants _ hg _ rfl rfl
  have hcc : c = c' := cfg.addr_injective hdst
  have hww : w = w' := hid
  rwa [hcc, hww]

theorem won_update (hi : i ∈ cfg.members) (hlead : st.role = .leader) :
    Won cfg (s.update i st (cfg.mail i out)) st.currentTerm i := by
  by_cases hfresh : (s.node i).role = .leader ∧ st.currentTerm = (s.node i).currentTerm
  · rw [hfresh.2]
    exact Won.update h hmove hrecv (h.won i hfresh.1)
  rw [not_and] at hfresh
  have hself := votedSelf_kept h hmove (by rw [hlead]; simp)
  have hvotes := votes_update h hmove hrecv (by rw [hlead]; simp) hfresh
  refine ⟨⟨st.votesReceived, ?_, fun w hw => (hvotes w hw).imp_right And.right⟩, fun c hg => ?_,
    Or.inr ⟨by rw [update_node_self], by rw [update_node_self]; exact hlead⟩⟩
  · refine Config.majority_of_quorum hi (fun w hw => ?_) (quorum_of_leader hmove hlead hfresh)
    rw [List.mem_toFinset]
    rcases hvotes w hw with rfl | ⟨hw', -⟩
    · exact hi
    · exact hw'
  · -- it has just voted for itself, or has been a candidate with its own vote
    rcases granted_update h hmove hrecv hg with hold | ⟨-, hnew⟩
    · have hle := h.grantTerm i c _ hold
      have hmono := term_le_of_move hmove
      have hsame : (s.node i).currentTerm = st.currentTerm := by omega
      have hvote := vote_kept h hmove hsame.symm (granted_ne h hold).symm
        (h.grantVote i c _ hold hsame)
      rw [hself, Option.some.injEq] at hvote
      exact granted_ne h hold hvote
    · have hvote := hnew.vote
      rw [hself, Option.some.injEq] at hvote
      exact hnew.other hvote.symm

theorem inv_update (hi : i ∈ cfg.members) : Inv cfg (s.update i st (cfg.mail i out)) where
  term_nonneg := fun j => (h.term_nonneg j).trans (term_le_update hmove j)
  term_pos :=
    forall_node_update (P := fun _ (st : ElectionState) => st.role ≠ .follower → 1 ≤ st.currentTerm)
      (term_pos_of_move h hmove) fun j _ => h.term_pos j
  requests := requests_update h hmove hi
  grants := grants_update h hmove hrecv hi
  votedSelf :=
    forall_node_update
      (P := fun j (st : ElectionState) => st.role ≠ .follower → st.votedFor = some j)
      (votedSelf_kept h hmove) fun j _ => h.votedSelf j
  grantTerm := by
    intro w c T hg
    rcases granted_update h hmove hrecv hg with hold | ⟨rfl, hnew⟩
    · exact (h.grantTerm w c T hold).trans (term_le_update hmove w)
    · rw [update_node_self, hnew.term]
  grantedTerm := by
    intro w c T hg
    rcases granted_update h hmove hrecv hg with hold | ⟨-, hnew⟩
    · exact (h.grantedTerm w c T hold).trans (term_le_update hmove c)
    · exact hnew.asked.trans (term_le_update hmove c)
  grantVote := by
    intro w c T hg hterm
    rcases granted_update h hmove hrecv hg with hold | ⟨rfl, hnew⟩
    · by_cases hw : w = i
      · subst hw
        rw [update_node_self] at hterm ⊢
        have hle := h.grantTerm w c T hold
        have hmono := term_le_of_move hmove
        have hsame : (s.node w).currentTerm = T := by omega
        exact vote_kept h hmove (by omega) (granted_ne h hold).symm (h.grantVote w c T hold hsame)
      · rw [update_node_of_ne hw] at hterm ⊢
        exact h.grantVote w c T hold hterm
    · rw [update_node_self]
      exact hnew.vote
  grantUnique := by
    -- a second grant in a term finds the vote given to the first candidate
    have hsecond : ∀ c c' T, Granted cfg s i c T → NewGrant cfg s i input st c' T → c = c' := by
      intro c c' T hold hnew
      have hle := h.grantTerm i c T hold
      rcases hnew.free with hlt | ⟨hsame, hf⟩
      · omega
      · have hvote := h.grantVote i c T hold hsame
        rcases hf with hf | hf <;> rw [hvote] at hf <;> cases hf
        rfl
    intro w c c' T hg hg'
    rcases granted_update h hmove hrecv hg with hold | ⟨rfl, hnew⟩
    · rcases granted_update h hmove hrecv hg' with hold' | ⟨rfl, hnew'⟩
      · exact h.grantUnique w c c' T hold hold'
      · exact hsecond c c' T hold hnew'
    · rcases granted_update h hmove hrecv hg' with hold' | ⟨-, hnew'⟩
      · exact (hsecond c' c T hold' hnew).symm
      · have hv := hnew.vote
        rw [hnew'.vote, Option.some.injEq] at hv
        exact hv.symm
  votes := by
    intro j hrole
    by_cases hj : j = i
    · subst hj
      rw [update_node_self] at hrole ⊢
      refine votes_update h hmove hrecv (by rw [hrole]; simp) fun hlead hsame => ?_
      rw [leader_kept hmove hsame hlead] at hrole
      cases hrole
    · rw [update_node_of_ne hj] at hrole ⊢
      exact fun w hw => (h.votes j hrole w hw).imp_right fun hg => ⟨hg.1, hg.2.mono⟩
  won := by
    intro j hlead
    by_cases hj : j = i
    · subst hj
      rw [update_node_self] at hlead ⊢
      exact won_update h hmove hrecv hi hlead
    · rw [update_node_of_ne hj] at hlead ⊢
      exact Won.update h hmove hrecv (h.won j hlead)

end step

/-! ### Whole runs -/

theorem inv_step (h : Inv cfg s) (ev : ElectionEvent) : Inv cfg (step cfg s ev) := by
  rcases step_cases s ev with heq | ⟨i, hi, input, st, out, hmove, hrecv, heq⟩
  · rw [heq]; exact h
  · rw [heq]; exact inv_update h hmove (fun pkt hpkt => received_spec (hrecv pkt hpkt)) hi

theorem Won.step {a : String} (h : Inv cfg s) (hwon : Won cfg s T a)
    (ev : ElectionEvent) : Won cfg (step cfg s ev) T a := by
  rcases step_cases s ev with heq | ⟨i, hi, input, st, out, hmove, hrecv, heq⟩
  · rw [heq]; exact hwon
  · rw [heq]; exact Won.update h hmove (fun pkt hpkt => received_spec (hrecv pkt hpkt)) hwon

theorem inv_run (cfg : Config) (es : List ElectionEvent) : Inv cfg (run (step cfg) init es) :=
  run_invariant (I := Inv cfg) (fun _ ev h => inv_step h ev) (inv_init cfg) es

theorem won_run {a : String} (h : Inv cfg s) (hwon : Won cfg s T a)
    (es : List ElectionEvent) : Won cfg (run (step cfg) s es) T a :=
  (run_invariant (I := fun s => Inv cfg s ∧ Won cfg s T a)
    (fun _ ev h => ⟨inv_step h.1 ev, h.2.step h.1 ev⟩) ⟨h, hwon⟩ es).2

/-- **Election safety**: if at two moments of a run nodes `a` and `b` are leaders of the same term,
they are the same node. -/
theorem election_safety (cfg : Config) (es fs : List ElectionEvent) (a b : String)
    (ha : ((run (step cfg) init es).node a).role = .leader)
    (hb : ((run (step cfg) init (es ++ fs)).node b).role = .leader)
    (hterm : ((run (step cfg) init es).node a).currentTerm =
      ((run (step cfg) init (es ++ fs)).node b).currentTerm) : a = b := by
  have hinv := inv_run cfg es
  have hinv' := inv_run cfg (es ++ fs)
  have hwon := won_run hinv (hinv.won a ha) fs
  rw [← Lib.run_append, hterm] at hwon
  exact Won.unique hinv' hwon (hinv'.won b hb)

/-- In a cluster of three `a` is elected in term 1 and still leads it after a heartbeat. -/
theorem election_safety_trio :
    ((run (step trio) init [.startElection "a", .deliver 0, .deliver 2]).node "a").role = .leader ∧
      "a" = "a" :=
  ⟨by decide, election_safety trio [.startElection "a", .deliver 0, .deliver 2]
    [.broadcastHeartbeat "a", .deliver 3] "a" "a" (by decide) (by decide) (by decide)⟩

/-- **One vote a term**: all votes that a member has sent for a term went to one candidate, and it never led
the term. -/
theorem one_vote_per_term (cfg : Config) (es fs : List ElectionEvent) (p : Packet ElectionMsg) (v : VoteResponse)
    (hp : p ∈ (run (step cfg) init (es ++ fs)).sent) (hv : p.payload = .voteResponse v) (hgranted : v.voteGranted) :
    (∀ q ∈ (run (step cfg) init (es ++ fs)).sent, ∀ w, q.payload = .voteResponse w → w.voteGranted →
      w.voterId = v.voterId → w.term = v.term → q.dst = p.dst) ∧
    let voter := (run (step cfg) init es).node v.voterId
    voter.role = .leader → voter.currentTerm ≠ v.term := by
  have h := inv_run cfg (es ++ fs)
  obtain ⟨i, -, c, -, -, rfl, hdst, hgrant⟩ := h.grants p hp v hv hgranted
  refine ⟨fun q hq w hw hgranted' hvoter hterm => ?_, fun hlead hterm => ?_⟩
  · obtain ⟨j, -, d, -, -, rfl, hdst', hgrant'⟩ := h.grants q hq w hw hgranted'
    rw [hvoter, hterm] at hgrant'
    rw [hdst, hdst', h.grantUnique _ _ _ _ hgrant hgrant']
  · have hwon := won_run (inv_run cfg es) ((inv_run cfg es).won _ hlead) fs
    rw [← run_append, hterm] at hwon
    exact hwon.grantsNone c hgrant

/-- Node `b` votes for `a` twice in term 1, and leads term 2. -/
theorem one_vote_per_term_trio :
    let s := run (step trio) init
      [.startElection "a", .deliver 0, .deliver 0, .startElection "b", .deliver 4, .deliver 6]
    (∀ q ∈ s.sent, ∀ w, q.payload = .voteResponse w → w.voteGranted → w.voterId = "b" → w.term = 1 →
      q.dst = trio.addr "a") ∧ (s.node "b").role = .leader ∧ (s.node "b").currentTerm ≠ 1 := by
  intro s
  have h := one_vote_per_term trio [.startElection "a", .deliver 0, .deliver 0, .startElection "b", .deliver 4,
    .deliver 6] [] _ ⟨1, true, "b"⟩ (List.mem_of_getElem? (i := 2) rfl) rfl rfl
  have hleads : (s.node "b").role = .leader := by decide +kernel
  exact ⟨h.1, hleads, h.2 hleads⟩

end ElectionNet

end MeshWeaver
