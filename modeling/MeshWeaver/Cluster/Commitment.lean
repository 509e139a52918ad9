import MeshWeaver.Cluster.Completeness

/-!
# Replication keeps what is choosable

What the steps of the replication engines do to the safety invariant. `SafetyEffect` is what one move
has to provide: the log keeps every beginning that the log of its term has, answers vouch for the
stored entries, and what is committed is covered by a chosen position.
-/

namespace MeshWeaver

open Lib
open RaftReplicationEngine

structure SafetyEffect (cfg : Config) (s : Cluster) (H : History) (i : String)
    (eng : RaftReplicationEngine) (out : List (Address × RaftMsg)) (H' : History) : Prop where
  log : LogEffect cfg s H i eng out H'
  bounded : ∀ e ∈ eng.log.entries, e.term ≤ (s.view i).term
  answers : ∀ m ∈ out, ∀ resp, m.2 = .appendEntriesResponse resp → resp.success = true →
    resp.followerId = i ∧ resp.term = (s.view i).term ∧
      resp.matchIndex ≤ eng.log.entries.length ∧ eng.log.entries <+: H'.log (s.view i).term
  keeps : s.entries i <+: eng.log.entries ∨ H.leader (s.view i).term ≠ none ∧
    ∀ P, P <+: s.entries i → P <+: H.log (s.view i).term → P <+: eng.log.entries
  records : Records cfg i eng
  progress : (s.view i).role = .leader → ∀ x ∈ cfg.members, x ≠ i →
    ∀ k : Nat, (k : Int) < eng.matchOf (.addr (cfg.addr x)) →
      Acked s.raft.sent H x (s.view i).term k
  requests : ∀ m ∈ out, ∀ req, m.2 = .appendEntriesRequest req →
    req.term = (s.view i).term ∧ req.leaderCommit = eng.log.commitIndex
  nonneg : 0 ≤ eng.log.commitIndex
  commits : ∀ k : Nat, (k : Int) < eng.log.commitIndex →
    Covered cfg s.raft.sent H' (s.view i).term eng.log.entries k
  calls : ∀ call ∈ eng.applyCalls, call ∈ (s.raft.node i).applyCalls ∨
    ∃ k : Nat, eng.log.entries[k]? = some call.entry ∧ (k : Int) < eng.log.commitIndex

variable {cfg : Config} {s : Cluster} {H H' : History} {T U : Int} {k : Nat}

namespace SafetyInv

variable {x : String}

theorem term_le_of_acked (h : SafetyInv cfg s H) (hack : Acked s.raft.sent H x T k) : T ≤ (s.view x).term := by
  rcases hack with ⟨hlead, -⟩ | ⟨pkt, hpkt, resp, hresp, hs, rfl, rfl, -⟩
  · obtain ⟨-, hwon, -⟩ := h.log.led T x hlead
    rcases hwon.leads with hlt | ⟨heq, -⟩
    · exact hlt.le
    · exact heq.ge
  · exact (h.answers pkt hpkt resp hresp hs).2

theorem lt_length_of_acked (h : SafetyInv cfg s H) (hack : Acked s.raft.sent H x T k) : k < (H.log T).length := by
  rcases hack with ⟨-, hlt⟩ | ⟨pkt, hpkt, resp, hresp, hs, -, rfl, hlt⟩
  · exact hlt
  · have := (h.answers pkt hpkt resp hresp hs).1
    omega

theorem exists_voter (h : SafetyInv cfg s H) (hlead : H.leader U ≠ none) {Q : Finset String}
    (hQ : Majority cfg.members.toFinset Q) : ∃ x ∈ Q, U ≤ (s.view x).term := by
  obtain ⟨b, hb⟩ := Option.ne_none_iff_exists'.mp hlead
  obtain ⟨-, hwon, -⟩ := h.log.led U b hb
  obtain ⟨R, hR, hvotes⟩ := hwon.quorum
  obtain ⟨x, hxQ, hxR⟩ := hQ.exists_mem_both hR
  refine ⟨x, hxQ, ?_⟩
  rcases hvotes x hxR with rfl | hg
  · rcases hwon.leads with hlt | ⟨heq, -⟩
    · exact hlt.le
    · exact heq.ge
  · exact h.log.election.grantTerm x b U hg

section update

variable {i : String} {eng : RaftReplicationEngine} {out : List (Address × RaftMsg)}
  (h : SafetyInv cfg s H) (hi : i ∈ cfg.members) (heff : SafetyEffect cfg s H i eng out H')
include h hi heff

theorem acked_update (hack : Acked (s.raft.update i eng (cfg.mail i out)).sent H' x T k) :
    Acked s.raft.sent H x T k ∨ x = i ∧ T = (s.view i).term ∧ upTo H' T k <+: eng.log.entries := by
  rcases hack with ⟨hlead, hlt⟩ | ⟨pkt, hpkt, resp, hresp, hs, rfl, rfl, hlt⟩
  · rcases heff.log.history with rfl | ⟨hrole, e, -, -, rfl⟩
    · exact Or.inl (Or.inl ⟨hlead, hlt⟩)
    · by_cases hT : T = (s.view i).term
      · subst hT
        have hown := (h.log.leads i hi hrole).1
        rw [History.append_leader, hown, Option.some.injEq] at hlead
        refine Or.inr ⟨hlead.symm, rfl, ?_⟩
        rw [heff.log.leads hrole]
        exact List.take_prefix _ _
      · rw [History.append_log_of_ne hT] at hlt
        exact Or.inl (Or.inl ⟨hlead, hlt⟩)
  · rcases Net.mem_sent_update.mp hpkt with hold | hnew
    · exact Or.inl (Or.inr ⟨pkt, hold, resp, hresp, hs, rfl, rfl, hlt⟩)
    · obtain ⟨-, -, hmem⟩ := Config.mem_mail hnew
      obtain ⟨hid, hterm, hmatch, hpre⟩ := heff.answers _ hmem resp hresp hs
      refine Or.inr ⟨hid, hterm, ?_⟩
      rw [hterm]
      refine List.prefix_of_prefix_length_le (List.take_prefix _ _) hpre ?_
      simp only [upTo, List.length_take]
      omega

omit h hi in
theorem own_update (hown : Own H' T k) :
    Own H T k ∧ upTo H' T k = upTo H T k ∨ k = (H.log T).length ∧ T = (s.view i).term := by
  rcases heff.log.history with rfl | ⟨-, e, -, -, rfl⟩
  · exact Or.inl ⟨hown, rfl⟩
  · by_cases hT : T = (s.view i).term
    · obtain ⟨f, hf, hterm⟩ := hown
      rw [← hT, History.append_log_self] at hf
      rcases Nat.lt_or_ge k (H.log T).length with hlt | hge
      · rw [List.getElem?_append_left hlt] at hf
        have hold : Own H T k := ⟨f, hf, hterm⟩
        exact Or.inl ⟨hold, upTo_mono hold (H.extends_append _ e)⟩
      · have hlt := (List.getElem?_eq_some_iff.mp hf).1
        simp only [List.length_append, List.length_singleton] at hlt
        exact Or.inr ⟨by omega, hT⟩
    · rw [Own, History.append_log_of_ne hT] at hown
      exact Or.inl ⟨hown, upTo_mono hown (H.extends_append _ e)⟩

theorem choosable_update (hcan : Choosable cfg (s.raftMoves cfg i eng out) H' T k) :
    Choosable cfg s H T k := by
  refine hcan.back (fun x hack => ?_) fun _ => le_rfl
  rcases acked_update h hi heff hack with hold | ⟨rfl, rfl, -⟩
  · exact Or.inl hold
  · exact Or.inr le_rfl

omit h hi in
theorem leader_update : H'.leader = H.leader := by
  rcases heff.log.history with rfl | ⟨-, e, -, -, rfl⟩ <;> rfl

omit h hi heff in
theorem entries_update (j : String) : (s.raftMoves cfg i eng out).entries j =
      if j = i then eng.log.entries else s.entries j := by
  simp only [Cluster.entries, Net.update_node]
  split_ifs <;> rfl

omit hi in
theorem boundedLog_update (T : Int) : ∀ e ∈ H'.log T, e.term ≤ T := by
  intro e he
  rcases heff.log.history with rfl | ⟨hrole, f, hterm, -, rfl⟩
  · exact h.boundedLog T e he
  · by_cases hT : T = (s.view i).term
    · rw [hT, History.append_log_self, List.mem_append, List.mem_singleton] at he
      rcases he with he | rfl
      · exact hT ▸ h.boundedLog _ e he
      · exact (hterm.trans hT.symm).le
    · rw [History.append_log_of_ne hT] at he
      exact h.boundedLog T e he

section choosable
variable (hcan : Choosable cfg (s.raftMoves cfg i eng out) H' T k) (hown : Own H' T k)
include hcan hown

theorem held_update (hx : x ∈ cfg.members) (hack : Acked (s.raft.update i eng (cfg.mail i out)).sent H' x T k) :
    upTo H' T k <+: if x = i then eng.log.entries else s.entries x := by
  rcases acked_update h hi heff hack with hold | ⟨rfl, -, hheld⟩
  · rcases own_update heff hown with ⟨hown, hupTo⟩ | ⟨hk, -⟩
    · have hcan₀ := choosable_update h hi heff hcan
      have hheld := h.acked x hx T k hold hcan₀ hown
      rw [hupTo]
      split_ifs with hxi
      · subst hxi
        rcases heff.keeps with hpre | ⟨hlead, hkeep⟩
        · exact hheld.trans hpre
        · exact hkeep _ hheld (h.upTo_isPrefix_log (h.term_le_of_acked hold) hlead hcan₀ hown)
      · exact hheld
    · have := h.lt_length_of_acked hold
      omega
  · rwa [if_pos rfl]

theorem complete_update (hlt : T < U) (hlead : H.leader U ≠ none) : upTo H' T k <+: H'.log U := by
  rcases own_update heff hown with ⟨hown, hupTo⟩ | ⟨hk, hT⟩
  · rw [hupTo]
    exact (h.complete T U k hlt hlead (choosable_update h hi heff hcan) hown).trans
      ((LogInv.extends_of_effect heff.log).log U)
  · obtain ⟨Q, hQ, hmem⟩ := hcan
    obtain ⟨x, hxQ, hterm⟩ := h.exists_voter hlead hQ
    have hack := (hmem x hxQ).resolve_right fun hle => absurd (hterm.trans hle) (by omega)
    rcases acked_update h hi heff hack with hold | ⟨rfl, -, -⟩
    · have := h.lt_length_of_acked hold
      omega
    · omega

theorem granted_update {w c : String} (hg : ElectionNet.Granted cfg s.election w c U)
    (hnone : H.leader U = none) (hview : s.view c = ⟨U, .candidate⟩) (hlt : T < U)
    (hack : Acked (s.raft.update i eng (cfg.mail i out)).sent H' w T k) :
    upTo H' T k <+: if c = i then eng.log.entries else s.entries c := by
  rcases acked_update h hi heff hack with hold | ⟨rfl, rfl, -⟩
  · rcases own_update heff hown with ⟨hown, hupTo⟩ | ⟨hk, -⟩
    · have hheld := h.granted w c U hg hnone hview T k hlt hold (choosable_update h hi heff hcan) hown
      rw [hupTo]
      split_ifs with hci
      · subst hci
        rcases heff.keeps with hpre | ⟨hlead, -⟩
        · exact hheld.trans hpre
        · rw [hview] at hlead
          exact absurd hnone hlead
      · exact hheld
    · have := h.lt_length_of_acked hold
      omega
  · have hle : U ≤ (s.view w).term := h.log.election.grantTerm w c U hg
    omega

end choosable

theorem update : SafetyInv cfg (s.raftMoves cfg i eng out) H' := by
  have hext := LogInv.extends_of_effect heff.log
  have hleader := leader_update heff
  have hsent : ∀ pkt ∈ s.raft.sent, pkt ∈ (s.raft.update i eng (cfg.mail i out)).sent :=
    fun pkt hpkt => Net.mem_sent_update.mpr (Or.inl hpkt)
  refine ⟨h.log.update hi heff.log, fun j hj => ?_, boundedLog_update h heff,
    fun pkt hpkt resp hresp hs => ?_, fun x hx T k hack hcan hown => ?_,
    fun T U k hlt hlead hcan hown => ?_, fun w c U hg hnone hview T k hlt hack hcan hown => ?_,
    fun j hj => ?_, fun a ha => ?_, fun pkt hpkt req hreq k hk => ?_, fun x hx => ?_,
    fun x hx k hk => ?_, fun x hx call hcall => ?_⟩
  · rw [entries_update]
    split_ifs with hji
    · exact hji ▸ heff.bounded
    · exact h.bounded j hj
  · -- `answers`
    rcases Net.mem_sent_update.mp hpkt with hold | hnew
    · obtain ⟨hmatch, hle⟩ := h.answers pkt hold resp hresp hs
      have := (hext.log resp.term).length_le
      exact ⟨by omega, hle⟩
    · obtain ⟨-, -, hmem⟩ := Config.mem_mail hnew
      obtain ⟨hid, hterm, hmatch, hpre⟩ := heff.answers _ hmem resp hresp hs
      have := hpre.length_le
      rw [hterm, hid]
      exact ⟨by omega, le_rfl⟩
  · rw [entries_update]
    exact held_update h hi heff hcan hown hx hack
  · rw [hleader] at hlead
    exact complete_update h hi heff hcan hown hlt hlead
  · rw [hleader] at hnone
    rw [entries_update]
    exact granted_update h hi heff hcan hown hg hnone hview hlt hack
  · simp only [Net.update_node]
    split_ifs with hji
    · exact hji ▸ heff.records
    · exact h.records j hj
  · -- `progress`
    simp only [Net.update_node]
    split_ifs with hai
    · subst hai
      exact fun hrole x hx hne k hk => (heff.progress hrole x hx hne k hk).mono hsent hext
    · exact fun hrole x hx hne k hk => (h.progress a ha hrole x hx hne k hk).mono hsent hext
  · -- `requests`
    rcases Net.mem_sent_update.mp hpkt with hold | hnew
    · obtain ⟨T, m, hT, hkm, hchosen⟩ := h.requests pkt hold req hreq k hk
      exact ⟨T, m, hT, hkm, hchosen.mono hsent hext⟩
    · obtain ⟨-, -, hmem⟩ := Config.mem_mail hnew
      obtain ⟨hterm, hcommit⟩ := heff.requests _ hmem req hreq
      obtain ⟨T, m, hT, hkm, hchosen, -⟩ := heff.commits k (hcommit ▸ hk)
      exact ⟨T, m, hterm ▸ hT, hkm, hchosen.mono hsent H'.extends_refl⟩
  · simp only [Net.update_node]
    split_ifs
    · exact heff.nonneg
    · exact h.nonneg x hx
  · -- `commits`
    rw [entries_update]
    simp only [Net.update_node] at hk
    split_ifs at hk ⊢ with hxi
    · subst hxi
      exact (heff.commits k hk).mono hsent H'.extends_refl le_rfl
    · exact (h.commits x hx k hk).mono hsent hext le_rfl
  · -- `calls`
    have hkept : ∀ {x}, x ∈ cfg.members → call ∈ (s.raft.node x).applyCalls → ∃ T m k, k ≤ m ∧
        Chosen cfg (s.raft.update i eng (cfg.mail i out)).sent H' T m ∧
          (H'.log T)[k]? = some call.entry := by
      intro x hx hcall
      obtain ⟨T, m, k, hkm, hchosen, hget⟩ := h.calls x hx call hcall
      exact ⟨T, m, k, hkm, hchosen.mono hsent hext, getElem?_of_isPrefix (hext.log T) hget⟩
    simp only [Net.update_node] at hcall
    split_ifs at hcall with hxi
    · rcases heff.calls call hcall with hold | ⟨k, hget, hk⟩
      · exact hkept hi hold
      · obtain ⟨T, m, -, hkm, hchosen, htake⟩ := heff.commits k hk
        refine ⟨T, m, k, hkm, hchosen.mono hsent H'.extends_refl, ?_⟩
        have hsame := congrArg (fun es => es[k]?) htake
        simp only [List.getElem?_take, if_pos (Nat.lt_succ_self k)] at hsame
        rw [← hsame, hget]
    · exact hkept hx hcall

end update

end SafetyInv

end MeshWeaver
