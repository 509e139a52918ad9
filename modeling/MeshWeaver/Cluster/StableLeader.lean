import MeshWeaver.Raft.Network
import MeshWeaver.Raft.Replay

/-!
# Replication under one stable leader

One node reads the role LEADER and a fixed term for the whole run, the others never read LEADER. Requests in flight
are slices of earlier states of the leader's log, so every follower's log is a beginning of the leader's, and
answers and records never exceed what the follower holds. `Inv` says so of the nodes, the packets and the records,
and `Effect` is what one move has to provide for it.
-/

namespace MeshWeaver

open Lib
open RaftReplicationEngine

namespace StableLeader

/-- An event together with what `get_term_and_role()` returns during it. -/
abbrev ViewedEvent := (String → View) × RaftEvent

def step (cfg : Config) (s : RaftNet) (ev : ViewedEvent) : RaftNet := RaftNet.step cfg ev.1 s ev.2

/-- The leader reads its term and the role LEADER; nobody else reads LEADER. -/
structure StableView (leader : String) (term : Int) (view : String → View) : Prop where
  leads : view leader = ⟨term, .leader⟩
  others : ∀ j, j ≠ leader → (view j).role ≠ .leader

def stableView (leader : String) (term : Int) : String → View := fun i =>
  ⟨term, if i = leader then .leader else .follower⟩

theorem stableView_stable (leader : String) (term : Int) : StableView leader term (stableView leader term) :=
  ⟨by simp [stableView], fun j hj => by simp [stableView, hj]⟩

section invariant

variable (cfg : Config) (leader : String)

/-- A request of the leader, built from an earlier state of its log. -/
def IsRequest (s : RaftNet) (pkt : Packet RaftMsg) (req : AppendEntriesRequest) : Prop :=
  ∃ x ∈ cfg.members, x ≠ leader ∧ pkt.src = cfg.addr leader ∧ pkt.dst = cfg.addr x ∧
    req.leaderCommit ≤ (s.node leader).log.commitIndex ∧
    ∃ L, L <+: (s.node leader).log.entries ∧ BuiltFrom req L

def IsAnswer (s : RaftNet) (pkt : Packet RaftMsg) (resp : AppendEntriesResponse) : Prop :=
  ∃ x ∈ cfg.members, x ≠ leader ∧ pkt.src = cfg.addr x ∧ pkt.dst = cfg.addr leader ∧
    pkt.senderId = x ∧ resp.followerId = x ∧
    (resp.success = true → resp.matchIndex ≤ (s.node x).log.entries.length)

/-- The leader's records do not exceed the followers' logs. -/
structure Progress (s : RaftNet) (eng : RaftReplicationEngine) : Prop
    extends Records cfg leader eng where
  matchOf_le : ∀ x ∈ cfg.members, x ≠ leader →
    eng.matchOf (.addr (cfg.addr x)) ≤ (s.node x).log.entries.length

structure Inv (s : RaftNet) : Prop where
  nodeId : ∀ i ∈ cfg.members, (s.node i).nodeId = i
  uncompacted : ∀ i ∈ cfg.members, (s.node i).log.Uncompacted
  isPrefix : ∀ i ∈ cfg.members, (s.node i).log.entries <+: (s.node leader).log.entries
  commit_nonneg : ∀ i ∈ cfg.members, 0 ≤ (s.node i).log.commitIndex
  commit_le_length : ∀ i ∈ cfg.members, (s.node i).log.commitIndex ≤ (s.node i).log.entries.length
  commit_le : ∀ i ∈ cfg.members, (s.node i).log.commitIndex ≤ (s.node leader).log.commitIndex
  packets : ∀ pkt ∈ s.sent,
    (∃ req, pkt.payload = .appendEntriesRequest req ∧ IsRequest cfg leader s pkt req) ∨
    ∃ resp, pkt.payload = .appendEntriesResponse resp ∧ IsAnswer cfg leader s pkt resp
  progress : Progress cfg leader s (s.node leader)

/-- What a move of node `i` has to provide: its log only grows, a follower stays behind the leader and
answers for what it holds, and the leader sends its log and keeps its records. -/
structure Effect (s : RaftNet) (i : String) (eng : RaftReplicationEngine)
    (out : List (Address × RaftMsg)) : Prop where
  nodeId : eng.nodeId = i
  uncompacted : eng.log.Uncompacted
  grows : (s.node i).log.entries <+: eng.log.entries
  commit_mono : (s.node i).log.commitIndex ≤ eng.log.commitIndex
  commit_le_length : eng.log.commitIndex ≤ eng.log.entries.length
  follows : i ≠ leader → eng.log.entries <+: (s.node leader).log.entries ∧
    eng.log.commitIndex ≤ (s.node leader).log.commitIndex ∧
    ∀ m ∈ out, ∃ resp, m = (cfg.addr leader, .appendEntriesResponse resp) ∧ resp.followerId = i ∧
      (resp.success = true → resp.matchIndex ≤ eng.log.entries.length)
  leads : i = leader → Progress cfg leader s eng ∧
    ∀ m ∈ out, ∃ x ∈ cfg.members, x ≠ leader ∧ ∃ req,
      m = (cfg.addr x, .appendEntriesRequest req) ∧ BuiltFrom req eng.log.entries ∧
      req.leaderCommit = eng.log.commitIndex

end invariant

variable {cfg : Config} {leader : String} {s : RaftNet} {pkt : Packet RaftMsg} {req : AppendEntriesRequest}
  {resp : AppendEntriesResponse}

theorem Inv.request (h : Inv cfg leader s) {i : String} (hsent : pkt ∈ s.sent) (hdst : pkt.dst = cfg.addr i)
    (hreq : pkt.payload = .appendEntriesRequest req) :
    i ≠ leader ∧ pkt.src = cfg.addr leader ∧
      req.leaderCommit ≤ (s.node leader).log.commitIndex ∧
      ∃ L, L <+: (s.node leader).log.entries ∧ BuiltFrom req L := by
  rcases h.packets pkt hsent with ⟨req', hreq', x, -, hne, hsrc, hdst', hcom, hL⟩ | ⟨resp, hresp, -⟩
  · obtain rfl := cfg.addr_injective (hdst.symm.trans hdst')
    rw [hreq, RaftMsg.appendEntriesRequest.injEq] at hreq'
    exact ⟨hne, hsrc, hreq' ▸ hcom, hreq' ▸ hL⟩
  · simp [hreq] at hresp

theorem Inv.answer (h : Inv cfg leader s) {i : String} (hsent : pkt ∈ s.sent) (hdst : pkt.dst = cfg.addr i)
    (hresp : pkt.payload = .appendEntriesResponse resp) : i = leader ∧ IsAnswer cfg leader s pkt resp := by
  rcases h.packets pkt hsent with ⟨req, hreq, -⟩ | ⟨resp', hresp', hans⟩
  · simp [hresp] at hreq
  · rw [hresp, RaftMsg.appendEntriesResponse.injEq] at hresp'
    subst hresp'
    have hto : pkt.dst = cfg.addr leader := by
      obtain ⟨-, -, -, -, hdst', -⟩ := hans
      exact hdst'
    exact ⟨cfg.addr_injective (hdst.symm.trans hto), hans⟩

/-! ### From effects to the invariant -/

section update

variable {i : String} {eng : RaftReplicationEngine} {out : List (Address × RaftMsg)}

section

variable (heff : Effect cfg leader s i eng out)
include heff

theorem Effect.entries_isPrefix (j : String) :
    (s.node j).log.entries <+: ((s.update i eng (cfg.mail i out)).node j).log.entries := by
  rw [Net.update_node]
  split_ifs with hj
  · rw [hj]; exact heff.grows
  · exact List.prefix_refl _

theorem Effect.commitIndex_le (j : String) :
    (s.node j).log.commitIndex ≤ ((s.update i eng (cfg.mail i out)).node j).log.commitIndex := by
  rw [Net.update_node]
  split_ifs with hj
  · rw [hj]; exact heff.commit_mono
  · exact le_rfl

theorem IsRequest.update (h : IsRequest cfg leader s pkt req) :
    IsRequest cfg leader (s.update i eng (cfg.mail i out)) pkt req := by
  obtain ⟨x, hx, hne, hsrc, hdst, hcommit, L, hL, hbuilt⟩ := h
  exact ⟨x, hx, hne, hsrc, hdst, hcommit.trans (heff.commitIndex_le leader), L,
    hL.trans (heff.entries_isPrefix leader), hbuilt⟩

theorem IsAnswer.update (h : IsAnswer cfg leader s pkt resp) :
    IsAnswer cfg leader (s.update i eng (cfg.mail i out)) pkt resp := by
  obtain ⟨x, hx, hne, hsrc, hdst, hid, hfid, hmatch⟩ := h
  refine ⟨x, hx, hne, hsrc, hdst, hid, hfid, fun hs => ?_⟩
  have hlen := (heff.entries_isPrefix x).length_le
  have := hmatch hs
  omega

theorem Progress.update {e : RaftReplicationEngine}
    (h : Progress cfg leader s e) : Progress cfg leader (s.update i eng (cfg.mail i out)) e := by
  refine ⟨h.toRecords, fun x hx hne => ?_⟩
  have hlen := (heff.entries_isPrefix x).length_le
  have := h.matchOf_le x hx hne
  omega

end

theorem Inv.update (h : Inv cfg leader s) (hleader : leader ∈ cfg.members) (hi : i ∈ cfg.members)
    (heff : Effect cfg leader s i eng out) : Inv cfg leader (s.update i eng (cfg.mail i out)) where
  nodeId := by
    intro j hj
    rw [Net.update_node]
    split_ifs with hji
    · rw [hji]; exact heff.nodeId
    · exact h.nodeId j hj
  uncompacted := by
    intro j hj
    rw [Net.update_node]
    split_ifs
    · exact heff.uncompacted
    · exact h.uncompacted j hj
  isPrefix := by
    intro j hj
    by_cases hji : j = i
    · by_cases hil : i = leader
      · rw [hji, hil]
      · rw [hji, Net.update_node_self]
        exact (heff.follows hil).1.trans (heff.entries_isPrefix leader)
    · rw [Net.update_node_of_ne hji]
      exact (h.isPrefix j hj).trans (heff.entries_isPrefix leader)
  commit_nonneg := fun j hj => (h.commit_nonneg j hj).trans (heff.commitIndex_le j)
  commit_le_length := by
    intro j hj
    rw [Net.update_node]
    split_ifs
    · exact heff.commit_le_length
    · exact h.commit_le_length j hj
  commit_le := by
    intro j hj
    by_cases hji : j = i
    · by_cases hil : i = leader
      · rw [hji, hil]
      · rw [hji, Net.update_node_self]
        exact (heff.follows hil).2.1.trans (heff.commitIndex_le leader)
    · rw [Net.update_node_of_ne hji]
      exact (h.commit_le j hj).trans (heff.commitIndex_le leader)
  packets := by
    intro pkt hpkt
    rcases Net.mem_sent_update.mp hpkt with hold | hnew
    · rcases h.packets pkt hold with ⟨req, hreq, hr⟩ | ⟨resp, hresp, ha⟩
      · exact Or.inl ⟨req, hreq, hr.update heff⟩
      · exact Or.inr ⟨resp, hresp, ha.update heff⟩
    obtain ⟨hsrc, hid, hmem⟩ := Config.mem_mail hnew
    by_cases hil : i = leader
    · obtain ⟨x, hx, hne, req, hm, hbuilt, hcommit⟩ := (heff.leads hil).2 _ hmem
      rw [Prod.mk.injEq] at hm
      subst hil
      refine Or.inl ⟨req, hm.2, x, hx, hne, hsrc, hm.1, ?_, eng.log.entries, ?_, hbuilt⟩
      · rw [Net.update_node_self, hcommit]
      · rw [Net.update_node_self]
    · obtain ⟨resp, hm, hfid, hmatch⟩ := (heff.follows hil).2.2 _ hmem
      rw [Prod.mk.injEq] at hm
      refine Or.inr ⟨resp, hm.2, i, hi, hil, hsrc, hm.1, hid, hfid, ?_⟩
      rwa [Net.update_node_self]
  progress := by
    by_cases hil : i = leader
    · subst hil
      rw [Net.update_node_self]
      exact (heff.leads rfl).1.update heff
    · rw [Net.update_node_of_ne (Ne.symm hil)]
      exact h.progress.update heff

end update

/-! ### From moves to effects -/

section moves

variable {i : String} {view : View} {input : EngineInput} {eng : RaftReplicationEngine}
  {out : List (Address × RaftMsg)} {T : Int} {views : String → View}

theorem Progress.congr {e e' : RaftReplicationEngine} (h : Progress cfg leader s e)
    (hfol : e'.followers = e.followers) : Progress cfg leader s e' := by
  refine ⟨h.toRecords.congr hfol, fun x hx hne => ?_⟩
  have hold := h.matchOf_le x hx hne
  rwa [matchOf, ← hfol] at hold

section

variable (h : Inv cfg leader s)
include h

theorem Effect.of_kept (hi : i ∈ cfg.members) (hlog : eng.log = (s.node i).log) (hid : eng.nodeId = (s.node i).nodeId)
    (hfol : eng.followers = (s.node i).followers) : Effect cfg leader s i eng [] := by
  refine ⟨hid.trans (h.nodeId i hi), hlog ▸ h.uncompacted i hi, by rw [hlog], by rw [hlog],
    by rw [hlog]; exact h.commit_le_length i hi, fun _ => ?_, ?_⟩
  · rw [hlog]
    exact ⟨h.isPrefix i hi, h.commit_le i hi, by simp⟩
  · rintro rfl
    exact ⟨h.progress.congr hfol, by simp⟩

theorem Effect.propose (hleader : leader ∈ cfg.members) {e : LogEntry} {eng₁ : RaftReplicationEngine} {now : Rat}
    (happ : Appends (s.node leader) view.term e eng₁)
    (hrest : cfg.peers leader = [] ∧ CommitsTo eng₁ e.index eng ∧ out = [] ∨
      cfg.peers leader ≠ [] ∧ eng = eng₁ ∧
        out = (cfg.peers leader).map fun peer => (peer, eng₁.requestFor view.term now peer)) :
    Effect cfg leader s leader eng out := by
  have hun₁ := happ.uncompacted (h.uncompacted leader hleader)
  obtain ⟨hidx, -, hlog, hid, hfol, -, -⟩ := happ
  have hcommit := h.commit_le_length leader hleader
  have hentries₁ : eng₁.log.entries = (s.node leader).log.entries ++ [e] := by rw [hlog]
  have hcommit₁ : eng₁.log.commitIndex = (s.node leader).log.commitIndex := by rw [hlog]
  rcases hrest with ⟨-, hto, rfl⟩ | ⟨-, rfl, rfl⟩
  · refine ⟨hto.nodeId.trans (hid.trans (h.nodeId leader hleader)), hto.uncompacted hun₁, ?_, ?_, ?_,
      fun hne => absurd rfl hne, fun _ => ⟨h.progress.congr (hto.followers.trans hfol), by simp⟩⟩
    · rw [hto.entries, hentries₁]
      exact List.prefix_append _ _
    · rw [hto.commitIndex, hcommit₁]
      exact le_max_left _ _
    · rw [hto.commitIndex, hto.entries, hentries₁, hcommit₁, List.length_append]
      omega
  · refine ⟨hid.trans (h.nodeId leader hleader), hun₁, ?_, ?_, ?_, fun hne => absurd rfl hne,
      fun _ => ⟨h.progress.congr hfol, fun m hm => ?_⟩⟩
    · rw [hentries₁]
      exact List.prefix_append _ _
    · rw [hcommit₁]
    · rw [hentries₁, List.length_append]
      omega
    · obtain ⟨x, hx, hne, req, hm', hbuilt, -, hcom⟩ := mem_requests hun₁ hm
      exact ⟨x, hx, hne, req, hm', hbuilt, hcom⟩

theorem Effect.accept (hi : i ∈ cfg.members) (hne : i ≠ leader)
    {L : List LogEntry} (hL : L <+: (s.node leader).log.entries)
    (hcommit : req.leaderCommit ≤ (s.node leader).log.commitIndex) {term : Int}
    {res : Except PyError AppendEntriesResponse} (hbuilt : BuiltFrom req L)
    (hacc : Accepts (s.node i) term req L eng res)
    (hout : ∀ m ∈ out, ∃ resp, res = .ok resp ∧
      m = (cfg.addr leader, .appendEntriesResponse resp)) :
    Effect cfg leader s i eng out := by
  have hF := h.isPrefix i hi
  have hno : ¬ Conflicts LogEntry.term ((s.node i).log.entries.drop req.prevLogIndex.toNat)
      req.entries := by
    rw [hbuilt.entries]
    exact not_conflicts_of_common hF hL _
  have hmerged : (s.node i).log.mergedCommit req.prevLogIndex.toNat req.entries =
      (s.node i).log.commitIndex := by rw [RaftLog.mergedCommit, if_neg hno]
  have hcom := hacc.commitIndex
  have hlen := h.commit_le_length i hi
  have hle := h.commit_le i hi
  have hgrow : (s.node i).log.entries <+: eng.log.entries ∧
      eng.log.entries <+: (s.node leader).log.entries := by
    rcases hacc.entries with ⟨heq, hconf | hlen'⟩ | ⟨heq, -, -⟩
    · exact absurd hconf hno
    · rw [heq]
      exact ⟨List.prefix_of_prefix_length_le hF hL hlen', hL⟩
    · rw [heq]
      exact ⟨List.prefix_refl _, hF⟩
  have hlen' := hgrow.1.length_le
  refine ⟨hacc.nodeId.trans (h.nodeId i hi), hacc.uncompacted, hgrow.1, by omega, by omega,
    fun _ => ⟨hgrow.2, by omega, fun m hm => ?_⟩, fun heq => absurd heq hne⟩
  obtain ⟨resp, hres, rfl⟩ := hout m hm
  have hresp := hacc.answer resp hres
  exact ⟨resp, rfl, by rw [hresp]; exact h.nodeId i hi, fun _ => by rw [hresp]⟩

theorem Progress.record (hans : IsAnswer cfg leader s pkt resp) :
    Progress cfg leader s ((s.node leader).recordPacket pkt resp) := by
  obtain ⟨x, hx, hne, hsrc, -, hid, hfid, hmatch⟩ := hans
  refine ⟨h.progress.toRecords.record hx hne hsrc hid hfid, fun y hy hney => ?_⟩
  have hold := h.progress.matchOf_le y hy hney
  rw [Records.matchOf_addr hsrc]
  split_ifs with hkey
  · rw [hkey.2] at hold ⊢
    exact max_le hold (hmatch hkey.1)
  · exact hold

end

theorem effect_of_move (h : Inv cfg leader s) (hleader : leader ∈ cfg.members)
    (hi : i ∈ cfg.members) (hview : StableView leader T views)
    (hmove : Move (views i) (cfg.peers i) (s.node i) input eng out)
    (hrecv : ∀ pkt, input.packet? = some pkt → pkt ∈ s.sent ∧ pkt.dst = cfg.addr i) :
    Effect cfg leader s i eng out := by
  have hlead : (views i).role = .leader → i = leader := fun hr => by
    by_contra hne
    exact hview.others i hne hr
  cases hmove with
  | quiet hlog hid hfol _ _ hout => exact hout ▸ Effect.of_kept h hi hlog hid hfol
  | propose hrole e eng₁ happ now hrest =>
    obtain rfl := hlead hrole
    exact Effect.propose h hi happ hrest
  | broadcast hrole now hsame hout =>
    obtain rfl := hlead hrole
    have hkept := Effect.of_kept h hi (congrArg _ hsame) (congrArg _ hsame) (congrArg _ hsame)
    refine { hkept with follows := fun hne => absurd rfl hne, leads := fun _ => ?_ }
    rw [hout, hsame]
    refine ⟨h.progress, fun m hm => ?_⟩
    obtain ⟨x, hx, hne, req, hm', hbuilt, -, hcom⟩ := mem_requests (h.uncompacted i hi) hm
    exact ⟨x, hx, hne, req, hm', hbuilt, hcom⟩
  | refuse pkt req hin hreq hsame resp hfail hfid hout =>
    obtain ⟨hsent, hdst⟩ := hrecv pkt hin
    obtain ⟨hne, hsrc, -⟩ := h.request hsent hdst hreq
    have hkept := Effect.of_kept h hi (congrArg _ hsame) (congrArg _ hsame) (congrArg _ hsame)
    refine { hkept with follows := fun _ => ?_, leads := fun heq => absurd heq hne }
    obtain ⟨hpre, hcom, -⟩ := hkept.follows hne
    refine ⟨hpre, hcom, fun m hm => ?_⟩
    rw [hout, List.mem_singleton, hsrc] at hm
    exact ⟨resp, hm, hfid.trans (h.nodeId i hi), by simp [hfail]⟩
  | accept pkt req hin hreq res hacc hout =>
    obtain ⟨hsent, hdst⟩ := hrecv pkt hin
    obtain ⟨hne, hsrc, hcom, L, hL, hbuilt⟩ := h.request hsent hdst hreq
    have hnum := (h.uncompacted leader hleader).numbered.of_isPrefix hL
    refine Effect.accept h hi hne hL hcom hbuilt
      (hacc L hnum (Agree.of_common (h.isPrefix i hi) hL) hbuilt) ?_
    rwa [← hsrc]
  | record pkt resp hin hresp heng hout =>
    obtain ⟨hsent, hdst⟩ := hrecv pkt hin
    obtain ⟨rfl, hans⟩ := h.answer hsent hdst hresp
    obtain ⟨hlog, hid, -, -⟩ := recordPacket_kept (s.node i) pkt resp
    rw [heng, hout]
    exact ⟨hid.trans (h.nodeId i hi), hlog ▸ h.uncompacted i hi, by rw [hlog], by rw [hlog],
      by rw [hlog]; exact h.commit_le_length i hi, fun hne => absurd rfl hne,
      fun _ => ⟨Progress.record h hans, by simp⟩⟩
  | commit pkt resp hin hresp hs hrole n habove hstored hq hto hout =>
    obtain ⟨hsent, hdst⟩ := hrecv pkt hin
    obtain ⟨rfl, hans⟩ := h.answer hsent hdst hresp
    obtain ⟨hlog, hid, -, -⟩ := recordPacket_kept (s.node i) pkt resp
    have hun : ((s.node i).recordPacket pkt resp).log.Uncompacted :=
      hlog ▸ h.uncompacted i hi
    rw [hout]
    refine ⟨hto.nodeId.trans (hid.trans (h.nodeId i hi)), hto.uncompacted hun, ?_, ?_, ?_,
      fun hne => absurd rfl hne, fun _ => ⟨(Progress.record h hans).congr hto.followers, by simp⟩⟩
    · rw [hto.entries, hlog]
    · rw [hto.commitIndex, hlog]
      exact le_max_left _ _
    · rw [hto.commitIndex, hto.entries, hlog]
      omega

end moves

end StableLeader

end MeshWeaver
