import MeshWeaver.Cluster.Refinement

/-!
# Committed entries on a majority

Under one stable leader a committed entry is stored by a majority of the members as long as the tally of
acknowledgements is safe (`commit_on_majority`). The tally counts a follower both under its address and under its
id, so from four members on it can reach the quorum with a minority (`commit_on_minority`).
-/

namespace MeshWeaver

open Lib
open RaftReplicationEngine

namespace StableLeader

variable {cfg : Config} {leader : String} {s : RaftNet} {T : Int}

def start (leader : String) (leaderLog : RaftLog) : RaftNet :=
  ⟨fun i => { RaftReplicationEngine.init i with
    log := if i = leader then leaderLog else .empty }, []⟩

/-- A majority with the leader in it holds the log up to the leader's commit index. -/
def OnMajority (cfg : Config) (leader : String) (s : RaftNet) : Prop :=
  (s.node leader).log.commitIndex = 0 ∨ ∃ Q, Majority cfg.members.toFinset Q ∧ leader ∈ Q ∧
    ∀ x ∈ Q, (s.node leader).log.commitIndex ≤ (s.node x).log.entries.length

theorem start_log (leader : String) (leaderLog : RaftLog) (i : String) :
    ((start leader leaderLog).node i).log = if i = leader then leaderLog else .empty := rfl

theorem inv_start (cfg : Config) (leader : String) {leaderLog : RaftLog}
    (hlog : leaderLog.Uncompacted) (hcommit : leaderLog.commitIndex = 0) :
    Inv cfg leader (start leader leaderLog) where
  nodeId := fun _ _ => rfl
  uncompacted := by
    intro i _
    rw [start_log]
    split_ifs
    · exact hlog
    · exact RaftLog.Uncompacted.empty
  isPrefix := by
    intro i _
    rw [start_log, start_log, if_pos rfl]
    split_ifs
    · exact List.prefix_refl _
    · exact List.nil_prefix
  commit_nonneg := by
    intro i _
    rw [start_log]
    split_ifs
    · rw [hcommit]
    · exact le_rfl
  commit_le_length := by
    intro i _
    rw [start_log]
    split_ifs
    · omega
    · exact le_rfl
  commit_le := by
    intro i _
    rw [start_log, start_log, if_pos rfl, hcommit]
    split_ifs
    · rw [hcommit]
    · exact le_rfl
  packets := by simp [start]
  progress := ⟨(Records.init cfg leader).congr rfl, fun _ _ _ => Int.natCast_nonneg _⟩

/-! ### One step -/

section step

variable {i : String} {views : String → View} {input : EngineInput} {eng : RaftReplicationEngine}
  {out : List (Address × RaftMsg)}

theorem OnMajority.of_commit_eq (h : OnMajority cfg leader s) (heff : Effect cfg leader s i eng out)
    (hcommit : ((s.update i eng (cfg.mail i out)).node leader).log.commitIndex =
      (s.node leader).log.commitIndex) :
    OnMajority cfg leader (s.update i eng (cfg.mail i out)) := by
  rw [OnMajority, hcommit]
  refine h.imp_right ?_
  rintro ⟨Q, hQ, hmem, hlen⟩
  refine ⟨Q, hQ, hmem, fun x hx => ?_⟩
  have := (heff.entries_isPrefix x).length_le
  have := hlen x hx
  omega

/-- **A step with a safe tally keeps committed entries on a majority.** -/
theorem onMajority_of_move (h : Inv cfg leader s) (hmaj : OnMajority cfg leader s)
    (hleader : leader ∈ cfg.members) (hi : i ∈ cfg.members) (hview : StableView leader T views)
    (hmove : Move (views i) (cfg.peers i) (s.node i) input eng out)
    (hrecv : ∀ pkt, input.packet? = some pkt → pkt ∈ s.sent ∧ pkt.dst = cfg.addr i)
    (hsafe : ∀ pkt resp, input.packet? = some pkt → pkt.payload = .appendEntriesResponse resp →
      resp.success = true → (views i).role = .leader →
      SafeTally (s.node i) (views i).term (cfg.peers i) pkt.src resp.matchIndex) :
    OnMajority cfg leader (s.update i eng (cfg.mail i out)) := by
  have heff := effect_of_move h hleader hi hview hmove hrecv
  by_cases hil : i = leader
  · subst hil
    have hself : ((s.update i eng (cfg.mail i out)).node i) = eng := Net.update_node_self
    have hkeep : eng.log.commitIndex = (s.node i).log.commitIndex →
        OnMajority cfg i (s.update i eng (cfg.mail i out)) := fun hc =>
      hmaj.of_commit_eq heff (by rw [hself, hc])
    cases hmove with
    | quiet hlog => exact hkeep (by rw [hlog])
    | broadcast _ _ hsame | refuse _ _ _ _ hsame => exact hkeep (by rw [hsame])
    | record pkt resp _ _ heng =>
      exact hkeep (by rw [heng, (recordAnswer_kept resp _ (s.node i)).1])
    | accept pkt req hin hreq =>
      -- the leader is sent no requests
      obtain ⟨hsent, hdst⟩ := hrecv pkt hin
      exact absurd rfl (h.request hsent hdst hreq).1
    | propose _ e eng₁ happ now hrest =>
      rcases hrest with ⟨halone, hto, -⟩ | ⟨-, heng, -⟩
      · -- a cluster of one
        have hlen := Config.length_peers hi
        rw [halone, List.length_nil] at hlen
        refine Or.inr ⟨{i}, ⟨?_, ?_⟩, Finset.mem_singleton_self i, fun x hx => ?_⟩
        · exact Finset.singleton_subset_iff.mpr (List.mem_toFinset.mpr hi)
        · rw [Config.card_members, ← hlen, Finset.card_singleton]
        · rw [Finset.mem_singleton.mp hx, hself]
          exact heff.commit_le_length
      · exact hkeep (by rw [heng, happ.2.2.1])
    | commit pkt resp hin hresp hs hrole n habove hstored hq hto =>
      obtain ⟨hsent, hdst⟩ := hrecv pkt hin
      have hprog := Progress.record h (h.answer hsent hdst hresp).2
      have hlog := (recordPacket_kept (s.node i) pkt resp).1
      have hpos : 1 ≤ n := by have := h.commit_nonneg i hi; omega
      have hQ := majority_of_hasQuorum hi (h.uncompacted i hi) hs hprog.toRecords.aliasedPeers
        (hsafe pkt resp hin hresp hs hrole) hpos habove hstored hq
      have hcom : eng.log.commitIndex = n := by
        rw [hto.commitIndex, hlog]
        omega
      refine Or.inr ⟨_, hQ, Finset.mem_insert_self _ _, fun x hx => ?_⟩
      rw [hself, hcom]
      rcases Finset.mem_insert.mp hx with rfl | hx
      · rwa [hself, hto.entries, hlog]
      · obtain ⟨hx, hne, hle⟩ := Finset.mem_filter.mp hx
        rw [Net.update_node_of_ne hne]
        exact hle.trans (hprog.matchOf_le x (List.mem_toFinset.mp hx) hne)
  · exact hmaj.of_commit_eq heff (by rw [Net.update_node_of_ne (Ne.symm hil)])

end step

/-- **Commit implies majority replication**, in every run in which each tally is safe: every entry up
to the leader's commit index is stored by a majority of the members, the leader included. -/
theorem commit_on_majority (cfg : Config) (leader : String) (hleader : leader ∈ cfg.members)
    (T : Int) (leaderLog : RaftLog) (hlog : leaderLog.Uncompacted)
    (hcommit : leaderLog.commitIndex = 0) (evs : List ViewedEvent)
    (hrun : Along (step cfg)
      (fun s ev => StableView leader T ev.1 ∧ RaftNet.SafeTallies cfg ev.1 s ev.2)
      (start leader leaderLog) evs) :
    let s := run (step cfg) (start leader leaderLog) evs
    ∀ n, 1 ≤ n → n ≤ (s.node leader).log.commitIndex →
      ∃ e Q, (s.node leader).log.getEntry n = some e ∧ Majority cfg.members.toFinset Q ∧
        leader ∈ Q ∧ ∀ x ∈ Q, (s.node x).log.getEntry n = some e := by
  intro s n hpos hn
  have hinv := Along.invariant (I := fun s => Inv cfg leader s ∧ OnMajority cfg leader s)
    (fun s ev h hcond => by
      refine ⟨inv_step h.1 hleader ev hcond.1, ?_⟩
      rcases RaftNet.step_cases h.1.noSnapshots h.1.uncompacted ev.1 ev.2 with
        heq | ⟨i, hi, input, eng, out, hmove, hrecv, heq⟩
      · rw [step, heq]; exact h.2
      · rw [step, heq]
        exact onMajority_of_move h.1 h.2 hleader hi hcond.1 hmove
          (fun pkt hpkt => ⟨(hrecv pkt hpkt).1, (hrecv pkt hpkt).2.1⟩)
          fun pkt resp hpkt => hcond.2 i pkt resp (hrecv pkt hpkt).2.2)
    ⟨inv_start cfg leader hlog hcommit, Or.inl (by rw [start_log, if_pos rfl, hcommit])⟩ hrun
  obtain ⟨h, hmaj⟩ : Inv cfg leader s ∧ OnMajority cfg leader s := hinv
  rcases hmaj with hzero | ⟨Q, hQ, hmem, hlen⟩
  · exact absurd hn (by rw [hzero]; omega)
  have hlt : (n - 1).toNat < (s.node leader).log.entries.length := by
    have := h.commit_le_length leader hleader
    omega
  have hget : (s.node leader).log.entries[(n - 1).toNat]? =
      some (s.node leader).log.entries[(n - 1).toNat] := List.getElem?_eq_getElem hlt
  refine ⟨_, Q, ((h.uncompacted leader hleader).getEntry hpos).trans hget, hQ, hmem,
    fun x hx => ?_⟩
  -- the log of `x` is a beginning of the leader's that reaches `n`
  have hx' : x ∈ cfg.members := List.mem_toFinset.mp (hQ.1 hx)
  have hltx : (n - 1).toNat < (s.node x).log.entries.length := by
    have := hlen x hx
    omega
  rw [(h.uncompacted x hx').getEntry hpos, List.getElem?_eq_getElem hltx, ← hget,
    Lib.getElem?_of_isPrefix (h.isPrefix x hx') (List.getElem?_eq_getElem hltx)]

/-- In a cluster of three the tally is safe, and the one command `a` commits is on a majority. -/
theorem commit_on_majority_trio :
    ∃ e Q, ((run (step trio) (start "a" .empty) oneCommand).node "a").log.getEntry 1 = some e ∧
      Majority trio.members.toFinset Q ∧ "a" ∈ Q ∧
      ∀ x ∈ Q, ((run (step trio) (start "a" .empty) oneCommand).node x).log.getEntry 1 = some e :=
  commit_on_majority trio "a" (by decide +kernel) 1 .empty RaftLog.Uncompacted.empty rfl oneCommand
    ⟨⟨stableView_stable "a" 1, RaftNet.safeTallies_of_length_le (by decide +kernel) _ _ _⟩,
      ⟨stableView_stable "a" 1, RaftNet.safeTallies_of_length_le (by decide +kernel) _ _ _⟩,
      ⟨stableView_stable "a" 1, RaftNet.safeTallies_of_length_le (by decide +kernel) _ _ _⟩, trivial⟩
    1 le_rfl (by decide +kernel)

def oneCommandOfFour : List ViewedEvent :=
  [(stableView "a" 1, .propose "a" (writeCommand "x") 1 fun _ => 0),
    (stableView "a" 1, .deliver 0 1 fun _ => 0), (stableView "a" 1, .deliver 3 1 fun _ => 0)]

/-- The one answer counts twice: `a` commits the entry although only `a` and `b` store it. -/
theorem commit_on_minority :
    Along (step quartet) (fun _ ev => StableView "a" 1 ev.1) (start "a" .empty) oneCommandOfFour ∧
      ((run (step quartet) (start "a" .empty) oneCommandOfFour).node "a").log.commitIndex = 1 ∧
      ¬ ∃ e Q, Majority quartet.members.toFinset Q ∧ ∀ x ∈ Q,
        ((run (step quartet) (start "a" .empty) oneCommandOfFour).node x).log.getEntry 1 =
          some e := by
  refine ⟨⟨stableView_stable "a" 1, stableView_stable "a" 1, stableView_stable "a" 1, trivial⟩,
    by decide +kernel, ?_⟩
  rintro ⟨e, Q, ⟨hsub, hcard⟩, hstored⟩
  have hstores : ∀ x ∈ Q, x ∈ (quartet.members.toFinset.filter fun x =>
      (((run (step quartet) (start "a" .empty) oneCommandOfFour).node x).log.getEntry 1).isSome) :=
    fun x hx => Finset.mem_filter.mpr ⟨hsub hx, by rw [hstored x hx]; rfl⟩
  have hle := hcard.trans (Finset.card_le_card hstores)
  exact absurd hle (by decide +kernel)

end StableLeader

end MeshWeaver
