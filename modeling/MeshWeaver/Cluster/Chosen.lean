import MeshWeaver.Cluster.History

/-!
# What a majority has acknowledged

The leader of a term vouches for its own log, and a follower vouches with every successful answer for a beginning
of it (`Acked`). A position is `Chosen` when it holds an entry of the term and a majority vouches for it, and
`Choosable` when this may still happen. A log that is at least as up to date as one with a choosable position
holds that position as well, provided the logs of the terms in between do (`upTo_isPrefix_of_upToDate`).
-/

namespace MeshWeaver

open Lib

section definitions

variable (cfg : Config) (s : Cluster) (sent : List (Packet RaftMsg)) (H : History)

/-- Member `x` vouches for the log of term `T` at position `k`. -/
def Acked (x : String) (T : Int) (k : Nat) : Prop :=
  H.leader T = some x ∧ k < (H.log T).length ∨
    ∃ pkt ∈ sent, ∃ resp, pkt.payload = .appendEntriesResponse resp ∧ resp.success = true ∧
      resp.followerId = x ∧ resp.term = T ∧ (k : Int) < resp.matchIndex

def Own (T : Int) (k : Nat) : Prop := ∃ e, (H.log T)[k]? = some e ∧ e.term = T

def upTo (T : Int) (k : Nat) : List LogEntry := (H.log T).take (k + 1)

def Chosen (T : Int) (k : Nat) : Prop :=
  Own H T k ∧ ∃ Q, Majority cfg.members.toFinset Q ∧ ∀ x ∈ Q, Acked sent H x T k

def Choosable (T : Int) (k : Nat) : Prop :=
  ∃ Q, Majority cfg.members.toFinset Q ∧
    ∀ x ∈ Q, Acked s.raft.sent H x T k ∨ (s.view x).term ≤ T

end definitions

variable {cfg : Config} {s : Cluster} {sent sent' : List (Packet RaftMsg)} {H H' : History}
  {x : String} {T : Int} {k : Nat}

section

variable (h : Own H T k)
include h

theorem Own.lt_length : k < (H.log T).length := by
  obtain ⟨e, he, -⟩ := h
  exact (List.getElem?_eq_some_iff.mp he).1

theorem Own.mono (hext : H.Extends H') : Own H' T k := by
  obtain ⟨e, he, hterm⟩ := h
  exact ⟨e, getElem?_of_isPrefix (hext.log T) he, hterm⟩

theorem length_upTo : (upTo H T k).length = k + 1 := by
  have := h.lt_length
  simp only [upTo, List.length_take]
  omega

theorem upTo_mono (hext : H.Extends H') : upTo H' T k = upTo H T k := by
  have hlt := h.lt_length
  rw [upTo, upTo, List.prefix_iff_eq_take.mp (hext.log T), List.take_take, min_eq_left (by omega)]

theorem Own.exists_mem_upTo : ∃ e ∈ upTo H T k, e.term = T := by
  obtain ⟨e, he, hterm⟩ := h
  refine ⟨e, List.mem_of_getElem? (i := k) ?_, hterm⟩
  rw [upTo, List.getElem?_take, if_pos (Nat.lt_succ_self k), he]

end

theorem Acked.mono (h : Acked sent H x T k) (hsent : ∀ pkt ∈ sent, pkt ∈ sent')
    (hext : H.Extends H') : Acked sent' H' x T k := by
  rcases h with ⟨hlead, hlt⟩ | ⟨pkt, hpkt, hresp⟩
  · exact Or.inl ⟨hext.leader T x hlead, hlt.trans_le (hext.log T).length_le⟩
  · exact Or.inr ⟨pkt, hsent pkt hpkt, hresp⟩

theorem Chosen.mono (h : Chosen cfg sent H T k) (hsent : ∀ pkt ∈ sent, pkt ∈ sent')
    (hext : H.Extends H') : Chosen cfg sent' H' T k := by
  obtain ⟨hown, Q, hQ, hacked⟩ := h
  exact ⟨hown.mono hext, Q, hQ, fun x hx => (hacked x hx).mono hsent hext⟩

theorem Chosen.choosable (h : Chosen cfg s.raft.sent H T k) : Choosable cfg s H T k := by
  obtain ⟨-, Q, hQ, hacked⟩ := h
  exact ⟨Q, hQ, fun x hx => Or.inl (hacked x hx)⟩

/-! ### Promotions -/

section promote

variable {U : Int} {a : String} {es : List LogEntry}

theorem Own.of_promote (htraced : Traced H es) (hnil : H.log U = [])
    (h : Own (H.promote U a es) T k) : T ≠ U ∧ Own H T k := by
  have hne : T ≠ U := by
    rintro rfl
    obtain ⟨e, he, hterm⟩ := h
    rw [History.promote_log_self] at he
    exact htraced.log_ne_nil he (hterm ▸ hnil)
  rw [Own, History.promote_log_of_ne hne] at h
  exact ⟨hne, h⟩

theorem Acked.of_promote (hne : T ≠ U) (h : Acked sent (H.promote U a es) x T k) : Acked sent H x T k := by
  rwa [Acked, History.promote_leader_of_ne hne, History.promote_log_of_ne hne] at h

end promote

/-! ### Logs that are up to date -/

/-- The candidate's log is at least as up to date as the voter's. -/
def UpToDate (candidate voter : RaftLog) : Prop :=
  voter.getTerm voter.lastIndex < candidate.getTerm candidate.lastIndex ∨
    voter.getTerm voter.lastIndex = candidate.getTerm candidate.lastIndex ∧
      voter.lastIndex ≤ candidate.lastIndex
deriving Decidable

theorem Traced.exists_last {es : List LogEntry} (h : Traced H es) (hne : es ≠ []) :
    ∃ e ∈ es, termAt es es.length = e.term ∧ es <+: H.log e.term := by
  have hpos : 0 < es.length := List.length_pos_iff.mpr hne
  have hget : es[es.length - 1]? = some es[es.length - 1] := List.getElem?_eq_getElem (by omega)
  refine ⟨es[es.length - 1], List.getElem_mem _, ?_, ?_⟩
  · have hidx : ((es.length : Int) - 1).toNat = es.length - 1 := by omega
    rw [termAt, if_neg (by omega), hidx, hget]
    rfl
  · have htake := h _ _ hget
    rwa [List.take_of_length_le (by omega)] at htake

/-- **An up-to-date log holds what the voter's log holds**: when the last terms are equal both begin
the same log, and a later last term belongs to a leader that holds it. -/
theorem upTo_isPrefix_of_upToDate {candidate voter : RaftLog} (hcun : candidate.Uncompacted)
    (hvun : voter.Uncompacted) (hc : Traced H candidate.entries) (hv : Traced H voter.entries)
    (hbound : ∀ T, ∀ e ∈ H.log T, e.term ≤ T) (hup : UpToDate candidate voter) (hpos : 0 ≤ T)
    (hown : Own H T k) (hheld : upTo H T k <+: voter.entries)
    (hlater : ∀ U, T < U → H.log U ≠ [] → upTo H T k <+: H.log U) : upTo H T k <+: candidate.entries := by
  rw [UpToDate, hvun.getTerm, hcun.getTerm, hvun.lastIndex, hcun.lastIndex] at hup
  obtain ⟨e, he, heT⟩ := hown.exists_mem_upTo
  have hvne : voter.entries ≠ [] := List.ne_nil_of_mem (hheld.subset he)
  obtain ⟨f, -, hf, hvlog⟩ := hv.exists_last hvne
  rw [hf] at hup
  -- the voter's log reaches into term `T`, so its last entry is of that term or a later one
  have hTf : T ≤ f.term := heT ▸ hbound f.term e (hvlog.subset (hheld.subset he))
  have hcne : candidate.entries ≠ [] := by
    intro hnil
    have hvlen := List.length_pos_iff.mpr hvne
    simp only [hnil, List.length_nil, termAt, Nat.cast_zero, le_refl, if_true] at hup
    omega
  obtain ⟨g, hg, hgT, hclog⟩ := hc.exists_last hcne
  rw [hgT] at hup
  rcases hup with hlt | ⟨heq, hlen⟩
  · -- a strictly later last term: its leader's log holds the position, and so does the beginning
    have hU := hlater g.term (by omega) (List.ne_nil_of_mem (hclog.subset hg))
    rcases List.prefix_or_prefix_of_prefix hclog hU with hshort | hlong
    · have hgmem : g ∈ H.log T := List.mem_of_mem_take (hshort.subset hg)
      have := hbound T g hgmem
      omega
    · exact hlong
  · rw [heq] at hvlog
    exact hheld.trans (List.prefix_of_prefix_length_le hvlog hclog (by exact_mod_cast hlen))

end MeshWeaver
