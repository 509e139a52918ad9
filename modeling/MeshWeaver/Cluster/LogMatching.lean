import MeshWeaver.Cluster.History

/-!
# Log matching

Two logs that hold entries with the same index and term are equal up to that index
(`log_matching`), in every run in which no leader accepts a request of a later term. The handler of
append requests neither steps down nor adopts the term, so a leader that accepts such a request goes
on proposing in its old term on top of the log it took over (`log_mismatch`).
-/

namespace MeshWeaver

open Lib
open LogInv (Unchallenged)

namespace Cluster

theorem logInv_run {cfg : Config} {evs : List ClusterEvent} (hok : Along (step cfg) (Unchallenged cfg) init evs) :
    ∃ H, LogInv cfg (run (step cfg) init evs) H :=
  Along.invariant (I := fun s => ∃ H, LogInv cfg s H) (fun _ ev ⟨_, h⟩ hok => h.step ev hok)
    ⟨_, LogInv.init cfg⟩ hok

/-- **Log matching**: in every run whose steps are all unchallenged, entries of two members' logs with
the same index and term are the same, and the logs are identical at every smaller index. -/
theorem log_matching (cfg : Config) (evs : List ClusterEvent)
    (hok : Along (step cfg) (Unchallenged cfg) init evs) (a b : String) (ha : a ∈ cfg.members)
    (hb : b ∈ cfg.members) (e f : LogEntry) (he : e ∈ (run (step cfg) init evs).entries a)
    (hf : f ∈ (run (step cfg) init evs).entries b) (hindex : e.index = f.index)
    (hterm : e.term = f.term) :
    e = f ∧ ∀ i < e.index, ((run (step cfg) init evs).raft.node a).log.getEntry i =
      ((run (step cfg) init evs).raft.node b).log.getEntry i := by
  obtain ⟨H, h⟩ := logInv_run hok
  obtain ⟨k, hk⟩ := List.mem_iff_getElem?.mp he
  obtain ⟨l, hl⟩ := List.mem_iff_getElem?.mp hf
  have hek := (h.uncompacted a ha).numbered k e hk
  have hfl := (h.uncompacted b hb).numbered l f hl
  obtain rfl : k = l := by omega
  have htake := (h.logs a ha).agree (h.logs b hb) k e f hk hl hterm
  have hsame : ∀ j ≤ k, ((run (step cfg) init evs).entries a)[j]? =
      ((run (step cfg) init evs).entries b)[j]? := by
    intro j hj
    have hget := congrArg (fun es => es[j]?) htake
    simpa only [List.getElem?_take, if_pos (Nat.lt_succ_of_le hj)] using hget
  refine ⟨?_, fun i hi => ?_⟩
  · have hget := hsame k le_rfl
    rwa [hk, hl, Option.some.injEq] at hget
  · rcases lt_or_ge i 1 with hlt | hge
    · rw [(h.uncompacted a ha).getEntry_nonpos (by omega),
        (h.uncompacted b hb).getEntry_nonpos (by omega)]
    · rw [(h.uncompacted a ha).getEntry hge, (h.uncompacted b hb).getEntry hge]
      exact hsame _ (by omega)

def oneLeader : List ClusterEvent :=
  [.election (.startElection "a"), .election (.deliver 0), .election (.deliver 2),
    .raft (.propose "a" (writeCommand "x") 1 fun _ => 0),
    .raft (.propose "a" (writeCommand "y") 1 fun _ => 0), .raft (.deliver 2 1 fun _ => 0)]

/-- The entry of a command that `proposer` proposes without a client id. -/
def proposedEntry (proposer : String) (index term : Int) (key : String) : LogEntry :=
  { writeEntry index term key with clientId := some proposer }

/-- The second entries of `a` and `b` match, and so do the first ones. -/
theorem log_matching_one_leader :
    let s := run (step trio) init oneLeader
    (s.raft.node "b").log.getEntry 1 = some (proposedEntry "a" 1 1 "x") ∧
      ∀ i < 2, (s.raft.node "a").log.getEntry i = (s.raft.node "b").log.getEntry i :=
  ⟨rfl, (log_matching trio oneLeader (by decide) "a" "b" (by decide) (by decide)
    (proposedEntry "a" 2 1 "y") (proposedEntry "a" 2 1 "y") (List.mem_of_getElem? (i := 1) rfl)
    (List.mem_of_getElem? (i := 1) rfl) rfl rfl).2⟩

/-- Node `a` leads term 1 and proposes two commands, which `c` stores. Node `b` is then elected in
term 2 by `c`, with an empty log, and its command replaces the log of `a`, which still leads term 1
and proposes once more. -/
def twoLeaders : List ClusterEvent :=
  [.election (.startElection "a"), .election (.deliver 0), .election (.deliver 2),
    .raft (.propose "a" (writeCommand "x") 1 fun _ => 0),
    .raft (.propose "a" (writeCommand "y") 1 fun _ => 0), .raft (.deliver 3 1 fun _ => 0),
    .election (.startElection "b"), .election (.deliver 4), .election (.deliver 5),
    .raft (.propose "b" (writeCommand "u") 1 fun _ => 0), .raft (.deliver 5 1 fun _ => 0),
    .raft (.propose "a" (writeCommand "v") 1 fun _ => 0)]

/-- The second entries of `a` and `c` have the same term and different commands. -/
theorem log_mismatch :
    ∃ e ∈ (run (step trio) init twoLeaders).entries "a",
      ∃ f ∈ (run (step trio) init twoLeaders).entries "c",
        e.index = f.index ∧ e.term = f.term ∧ e.key ≠ f.key :=
  ⟨proposedEntry "a" 2 1 "v", List.mem_of_getElem? (i := 1) rfl, proposedEntry "a" 2 1 "y",
    List.mem_of_getElem? (i := 1) rfl, rfl, rfl, by decide⟩

end Cluster

end MeshWeaver
