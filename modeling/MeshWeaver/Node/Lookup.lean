import MeshWeaver.Node.Routing

/-!
# The iterative lookup

`NodeLookup.lookup` asks the nearest nodes that it has not asked yet, up to `alpha` at a time, as long as the nearest
contact gets nearer. While it waits, peers answer with any contacts or not at all, and other datagrams change the
table. The nearest contact of one round is the one that the next round starts with, because nothing is awaited in
between, so the distance gets smaller in every round that is not the last.
-/

namespace MeshWeaver

open Lib
open MeshPeers (exampleId)

/-- What happens in one round while the answers are awaited: the calls that change the table (those of
`send_find_node` and of datagrams), and the answer of each node; `none` if the query fails. -/
structure LookupRound where
  meanwhile : List RoutingCall
  answer : NodeInfo → Option (List NodeInfo)

structure LookupResult where
  nodes : List NodeInfo
  queried : List NodeID
  table : RoutingTable

namespace NodeLookup

def closestDistance (contacts : List NodeInfo) (targetId : NodeID) : Nat :=
  match contacts with
  | [] => 160 + 1
  | contact :: _ => contact.nodeId.distance targetId

section Definitions

variable (alpha : Nat) (targetId : NodeID)

def closest (table : RoutingTable) : List NodeInfo := table.findClosestNodes targetId (some table.k) none

def candidates (table : RoutingTable) (queried : List NodeID) : List NodeInfo :=
  ((closest targetId table).filter fun contact => contact.nodeId ∉ queried).take alpha

def afterRound (table : RoutingTable) (asked : List NodeInfo) (round : LookupRound) : RoutingTable :=
  run RoutingTable.addContact (table.after round.meanwhile) (asked.filterMap round.answer).flatten

/-- The loop of `lookup`, for at most `fuel` rounds. -/
def loop : Nat → RoutingTable → List NodeID → (Nat → LookupRound) → Option LookupResult
  | 0, _, _, _ => none
  | fuel + 1, table, queried, rounds =>
    match candidates alpha targetId table queried with
    | [] => some ⟨closest targetId table, queried, table⟩
    | first :: others =>
      let queriedNow := queried ++ (first :: others).map NodeInfo.nodeId
      let next := afterRound table (first :: others) (rounds 0)
      if closestDistance (closest targetId next) targetId ≥ closestDistance (closest targetId table) targetId then
        some ⟨closest targetId next, queriedNow, next⟩
      else loop fuel next queriedNow fun i => rounds (i + 1)

/-- `lookup(target_id)`, for at most `fuel` rounds. -/
def lookup (table : RoutingTable) (rounds : Nat → LookupRound) (fuel : Nat) : Option LookupResult :=
  loop alpha targetId fuel table [] rounds

end Definitions

variable {targetId : NodeID} {table : RoutingTable} {queried : List NodeID}

section
-- nothing is asked of the ids of the table
variable (h : table.Invariant fun _ => True)
include h

theorem afterRound_invariant (asked : List NodeInfo) (round : LookupRound) :
    ((afterRound table asked round).Invariant fun _ => True) ∧ (afterRound table asked round).k = table.k := by
  have hcalls : table.after (round.meanwhile ++ (asked.filterMap round.answer).flatten.map .addContact) =
      afterRound table asked round := by
    rw [RoutingTable.after, run_append]
    exact List.foldl_map
  obtain ⟨hinvariant, -, hk⟩ := h.after fun _ _ => trivial
  rw [hcalls] at hinvariant hk
  exact ⟨hinvariant, hk⟩

/-- **No node is queried again.** -/
theorem nodup_queried (hqueried : queried.Nodup) (alpha : Nat) (targetId : NodeID) :
    (queried ++ (candidates alpha targetId table queried).map NodeInfo.nodeId).Nodup := by
  obtain ⟨-, hnodup, -⟩ := h.findClosestNodes targetId (some table.k) none
  have hsublist : ((candidates alpha targetId table queried).map NodeInfo.nodeId).Sublist
      ((closest targetId table).map NodeInfo.nodeId) :=
    ((List.take_sublist _ _).trans List.filter_sublist).map _
  refine hqueried.append (hnodup.sublist hsublist) fun id hid hnew => ?_
  obtain ⟨contact, hcontact, rfl⟩ := List.mem_map.mp hnew
  have hfresh := List.of_mem_filter (List.mem_of_mem_take hcontact)
  exact of_decide_eq_true hfresh hid

theorem closest_spec :
    (closest targetId table).length ≤ table.k ∧
      (closest targetId table).Pairwise fun a b => a.nodeId.distance targetId ≤ b.nodeId.distance targetId := by
  obtain ⟨hlength, -, -, hsorted⟩ := h.findClosestNodes targetId (some table.k) none
  exact ⟨hlength.trans_le (min_le_left _ _), hsorted⟩

theorem loop_ends (alpha : Nat) (hqueried : queried.Nodup) (rounds : Nat → LookupRound) {bound : Nat}
    (hbound : closestDistance (closest targetId table) targetId < bound) :
    ∃ result, (∀ fuel ≥ bound, loop alpha targetId fuel table queried rounds = some result) ∧
      result.queried.Nodup ∧ result.nodes.length ≤ table.k ∧
      result.nodes.Pairwise fun a b => a.nodeId.distance targetId ≤ b.nodeId.distance targetId := by
  induction bound generalizing table queried rounds with
  | zero => omega
  | succ bound ih =>
    have hnodup := nodup_queried h hqueried alpha targetId
    cases hcandidates : candidates alpha targetId table queried with
    | nil =>
      refine ⟨⟨closest targetId table, queried, table⟩, fun fuel hfuel => ?_, hqueried, closest_spec h⟩
      obtain ⟨fuel, rfl⟩ := Nat.exists_eq_succ_of_ne_zero (by omega : fuel ≠ 0)
      rw [loop, hcandidates]
    | cons first others =>
      rw [hcandidates] at hnodup
      obtain ⟨hnext, hk⟩ := afterRound_invariant h (first :: others) (rounds 0)
      generalize hafter : afterRound table (first :: others) (rounds 0) = next at hnext hk
      by_cases hnearer : closestDistance (closest targetId next) targetId ≥
          closestDistance (closest targetId table) targetId
      · refine ⟨⟨closest targetId next, _, next⟩, fun fuel hfuel => ?_, hnodup, hk ▸ closest_spec hnext⟩
        obtain ⟨fuel, rfl⟩ := Nat.exists_eq_succ_of_ne_zero (by omega : fuel ≠ 0)
        rw [loop, hcandidates]
        dsimp only
        rw [hafter, if_pos hnearer]
      · obtain ⟨result, hresult, hspec⟩ := ih hnext hnodup (fun i => rounds (i + 1)) (by omega)
        refine ⟨result, fun fuel hfuel => ?_, hk ▸ hspec⟩
        obtain ⟨fuel, rfl⟩ := Nat.exists_eq_succ_of_ne_zero (by omega : fuel ≠ 0)
        rw [loop, hcandidates]
        dsimp only
        rw [hafter, if_neg hnearer]
        exact hresult fuel (by omega)

end

/-- **A lookup ends against any peers.** Whatever they answer and whatever else changes the table meanwhile, the
loop ends after a bounded number of rounds, has queried no node twice, and returns at most `k` contacts in the
order of their distance. -/
theorem lookup_ends (nodeId : NodeID) (k : Nat) (calls : List RoutingCall) (alpha : Nat) (targetId : NodeID)
    (rounds : Nat → LookupRound) :
    let table := (RoutingTable.new nodeId k).after calls
    ∃ bound result, (∀ fuel ≥ bound, lookup alpha targetId table rounds fuel = some result) ∧
      result.queried.Nodup ∧ result.nodes.length ≤ k ∧
      result.nodes.Pairwise fun a b => a.nodeId.distance targetId ≤ b.nodeId.distance targetId := by
  intro table
  have hnew : (RoutingTable.new nodeId k).Invariant fun _ => True := RoutingTable.invariant_new nodeId k
  obtain ⟨hinvariant, -, hk⟩ := hnew.after fun c (_ : c ∈ calls) => trivial
  have hbound := Nat.lt_succ_self (closestDistance (closest targetId table) targetId)
  obtain ⟨result, hresult, hspec⟩ := loop_ends hinvariant alpha List.nodup_nil rounds hbound
  rw [hk] at hspec
  exact ⟨_, result, hresult, hspec⟩

def tellsOfNearer : Nat → LookupRound := fun _ =>
  { meanwhile := [.addContact ⟨exampleId 64, "c", 1, none⟩]
    answer := fun contact =>
      if contact.nodeId = exampleId 8 then some [⟨exampleId 4, "b", 1, none⟩] else none }

/-- The second round asks the nearer peer and a stranger, and is the last. -/
example :
    let table := (RoutingTable.new (exampleId 0) 20).after [.addContact ⟨exampleId 8, "a", 1, none⟩]
    ((lookup 3 (exampleId 5) table tellsOfNearer 2).map fun result =>
        (result.queried, result.nodes.map NodeInfo.nodeId)) =
      some ([exampleId 8, exampleId 4, exampleId 64], [exampleId 4, exampleId 8, exampleId 64]) := by
  decide +kernel

end NodeLookup

end MeshWeaver
