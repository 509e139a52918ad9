import MeshWeaver.Cluster.CarefulSteps

/-!
# State machine safety

In every run of careful steps no two nodes apply different entries at one index (`state_machine_safety`), and leaders
hold what is committed (`leader_completeness`). Votes ignore the logs, so a node with an empty log can be elected after
an entry has been applied, and replace it (`applied_entry_replaced`).
-/

namespace MeshWeaver

open Lib

namespace Cluster

variable {cfg : Config} {s : Cluster} {H : History}

theorem safetyInv_run {evs : List ClusterEvent} (hok : Along (step cfg) (Careful cfg) init evs) :
    ∃ H, SafetyInv cfg (run (step cfg) init evs) H :=
  Along.invariant (I := fun s => ∃ H, SafetyInv cfg s H) (fun _ ev ⟨_, h⟩ hok => h.step ev hok)
    ⟨_, SafetyInv.init cfg⟩ hok

theorem getElem?_eq_of_chosen (h : SafetyInv cfg s H) {T U : Int} {m n k : Nat}
    (hT : Chosen cfg s.raft.sent H T m) (hU : Chosen cfg s.raft.sent H U n) (hkm : k ≤ m)
    (hle : T ≤ U) {e : LogEntry} (he : (H.log T)[k]? = some e) : (H.log U)[k]? = some e := by
  have hlead : H.leader U ≠ none :=
    h.leader_ne_none (List.ne_nil_of_length_pos (Nat.zero_lt_of_lt hU.1.lt_length))
  refine getElem?_of_isPrefix (h.upTo_isPrefix_log hle hlead hT.choosable hT.1) ?_
  rw [upTo, List.getElem?_take, if_pos (by omega), he]

/-- **State machine safety**: in every run of careful steps, entries that two members have applied at
the same index are the same. -/
theorem state_machine_safety (cfg : Config) (evs : List ClusterEvent)
    (hok : Along (step cfg) (Careful cfg) init evs) (a b : String) (ha : a ∈ cfg.members)
    (hb : b ∈ cfg.members) (c d : ApplyCall)
    (hc : c ∈ ((run (step cfg) init evs).raft.node a).applyCalls)
    (hd : d ∈ ((run (step cfg) init evs).raft.node b).applyCalls)
    (hindex : c.entry.index = d.entry.index) : c.entry = d.entry := by
  obtain ⟨H, h⟩ := safetyInv_run hok
  obtain ⟨T, m, k, hkm, hT, hget⟩ := h.calls a ha c hc
  obtain ⟨U, n, l, hln, hU, hget'⟩ := h.calls b hb d hd
  have hk := h.log.numbered T k _ hget
  have hl := h.log.numbered U l _ hget'
  obtain rfl : k = l := by omega
  rcases le_total T U with hle | hle
  · have hsame := getElem?_eq_of_chosen h hT hU hkm hle hget
    rwa [hget', Option.some.injEq, eq_comm] at hsame
  · have hsame := getElem?_eq_of_chosen h hU hT hln hle hget'
    rwa [hget, Option.some.injEq] at hsame

def appliedTwice : List ClusterEvent :=
  [.election (.startElection "a"), .election (.deliver 0), .election (.deliver 2),
    .raft (.propose "a" (writeCommand "x") 1 fun _ => 0), .raft (.deliver 0 1 fun _ => 0),
    .raft (.deliver 2 1 fun _ => 0), .raft (.broadcast "a" 1), .raft (.deliver 3 1 fun _ => 0)]

theorem appliedTwice_careful : Along (step trio) (Careful trio) init appliedTwice := by
  have hchecks : Along (step trio) (fun s ev => VotesUpToDate trio s ev ∧ RecordsFresh trio s ev ∧
      RequestsCurrent trio s ev ∧ AnswersCurrent trio s ev) init appliedTwice := by
    decide +kernel
  exact hchecks.mono fun s ev h => ⟨h.1, h.2.1, h.2.2.1, h.2.2.2, fun rev _ =>
    RaftNet.safeTallies_of_length_le (by decide) s.view s.raft rev⟩

/-- Both nodes have applied the same entry at index 1. -/
theorem state_machine_safety_trio :
    ∃ c ∈ ((run (step trio) init appliedTwice).raft.node "a").applyCalls,
      ∃ d ∈ ((run (step trio) init appliedTwice).raft.node "b").applyCalls,
        c.entry.index = d.entry.index ∧ c.entry = d.entry := by
  obtain ⟨c, hc, d, hd, hindex⟩ :
      ∃ c ∈ ((run (step trio) init appliedTwice).raft.node "a").applyCalls,
        ∃ d ∈ ((run (step trio) init appliedTwice).raft.node "b").applyCalls,
          c.entry.index = d.entry.index := by
    decide +kernel
  exact ⟨c, hc, d, hd, hindex, state_machine_safety trio appliedTwice appliedTwice_careful "a" "b" (by decide)
    (by decide) c d hc hd hindex⟩

/-- **Leader completeness**: in every run of careful steps, the log of a leader begins with the entries that a
member of no later term has committed. -/
theorem leader_completeness (cfg : Config) (evs : List ClusterEvent)
    (hok : Along (step cfg) (Careful cfg) init evs) (a b : String) (ha : a ∈ cfg.members) (hb : b ∈ cfg.members) :
    let s := run (step cfg) init evs
    (s.view a).role = .leader → (s.view b).term ≤ (s.view a).term →
      (s.entries b).take (s.raft.node b).log.commitIndex.toNat <+: s.entries a := by
  intro s hrole hterm
  obtain ⟨H, h⟩ := safetyInv_run hok
  obtain ⟨hlead, hlog⟩ := h.log.leads a ha hrole
  cases hn : (s.raft.node b).log.commitIndex.toNat with
  | zero => exact List.nil_prefix
  | succ k =>
    -- the last committed position of `b` is covered by one that a leader of a term up to that of `a` has chosen
    have hk : (k : Int) < (s.raft.node b).log.commitIndex := by omega
    obtain ⟨T, m, hT, hkm, hchosen, htake⟩ := h.commits b hb k hk
    rw [htake, hlog]
    exact (List.take_prefix_take_left (by omega)).trans
      (h.upTo_isPrefix_log (hT.trans hterm) (by simp [hlead]) hchosen.choosable hchosen.1)

theorem leader_completeness_trio :
    ((run (step trio) init appliedTwice).entries "b").take 1 <+:
      (run (step trio) init appliedTwice).entries "a" := by
  have hcommit : ((run (step trio) init appliedTwice).raft.node "b").log.commitIndex = 1 := by decide +kernel
  have h := leader_completeness trio appliedTwice appliedTwice_careful "a" "b" (by decide) (by decide)
    (by decide +kernel) (by decide +kernel)
  rwa [hcommit] at h

/-- Node `a` is elected in term 1 and applies its command, which `b` has stored. Then `c` stands in
terms 1 and 2, is elected with the vote of `b` and an empty log, and applies its own command. -/
def staleLeader : List ClusterEvent :=
  [.election (.startElection "a"), .election (.deliver 0), .election (.deliver 2),
    .raft (.propose "a" (writeCommand "x") 1 fun _ => 0), .raft (.deliver 0 1 fun _ => 0),
    .raft (.deliver 2 1 fun _ => 0), .election (.startElection "c"), .election (.startElection "c"),
    .election (.deliver 6), .election (.deliver 7),
    .raft (.propose "c" (writeCommand "y") 1 fun _ => 0), .raft (.deliver 4 1 fun _ => 0),
    .raft (.deliver 5 1 fun _ => 0)]

/-- Nodes `a` and `c` have applied different commands at one index. -/
theorem applied_entry_replaced :
    ∃ c ∈ ((run (step trio) init staleLeader).raft.node "a").applyCalls,
      ∃ d ∈ ((run (step trio) init staleLeader).raft.node "c").applyCalls,
        c.entry.index = d.entry.index ∧ c.entry.key ≠ d.entry.key := by
  decide +kernel

end Cluster

end MeshWeaver
