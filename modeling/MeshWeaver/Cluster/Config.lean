import Mathlib.Data.Finset.Basic
import MeshWeaver.Lib.Quorum
import MeshWeaver.Model.Messages

/-!
# A cluster with a fixed membership

The members have distinct ids and distinct addresses, and `get_active_peers()` constantly returns the
addresses of all the others.
-/

namespace MeshWeaver

structure Config where
  members : List String
  nodup : members.Nodup
  addr : String → Address
  addr_injective : Function.Injective addr

namespace Config

variable (cfg : Config)

/-- What `get_active_peers()` returns at node `i`. -/
def peers (i : String) : List Address := (cfg.members.filter (· ≠ i)).map cfg.addr

/-- The member that listens at an address. -/
def owner (a : Address) : Option String := cfg.members.find? fun i => cfg.addr i = a

/-- The packets with which node `i` sends `out`. -/
def mail {μ : Type} (i : String) (out : List (Address × μ)) : List (Packet μ) :=
  out.map fun m => ⟨cfg.addr i, m.1, i, m.2⟩

variable {cfg} {i : String}

theorem owner_eq_some {a : Address} (h : cfg.owner a = some i) : i ∈ cfg.members ∧ cfg.addr i = a :=
  ⟨List.mem_of_find?_eq_some h, by simpa using List.find?_some h⟩

theorem mem_peers {a : Address} : a ∈ cfg.peers i ↔ ∃ j ∈ cfg.members, j ≠ i ∧ a = cfg.addr j := by
  simp only [peers, List.mem_map, List.mem_filter, decide_eq_true_eq]
  constructor
  · rintro ⟨j, ⟨hj, hne⟩, rfl⟩
    exact ⟨j, hj, hne, rfl⟩
  · rintro ⟨j, hj, hne, rfl⟩
    exact ⟨j, ⟨hj, hne⟩, rfl⟩

theorem length_peers (hi : i ∈ cfg.members) : (cfg.peers i).length + 1 = cfg.members.length := by
  have herase : cfg.members.filter (· ≠ i) = cfg.members.erase i := by
    rw [cfg.nodup.erase_eq_filter]
    congr 1
    funext j
    by_cases h : j = i <;> simp [h]
  have hpos := List.length_pos_of_mem hi
  rw [peers, List.length_map, herase, List.length_erase_of_mem hi]
  omega

theorem mem_mail {μ : Type} {out : List (Address × μ)} {pkt : Packet μ} (h : pkt ∈ cfg.mail i out) :
    pkt.src = cfg.addr i ∧ pkt.senderId = i ∧ (pkt.dst, pkt.payload) ∈ out := by
  obtain ⟨m, hm, rfl⟩ := List.mem_map.mp h
  exact ⟨rfl, rfl, hm⟩

theorem card_members : cfg.members.toFinset.card = cfg.members.length :=
  List.toFinset_card_of_nodup cfg.nodup

end Config

theorem Config.majority_of_quorum {cfg : Config} {i : String} (hi : i ∈ cfg.members)
    {Q : Finset String} (hsub : Q ⊆ cfg.members.toFinset) (hcard : ((cfg.peers i).length + 1) / 2 + 1 ≤ Q.card) :
    Lib.Majority cfg.members.toFinset Q := by
  refine ⟨hsub, ?_⟩
  rwa [cfg.card_members, ← length_peers hi]

def trio : Config where
  members := ["a", "b", "c"]
  nodup := by decide
  addr := fun i => ⟨i, 7000⟩
  addr_injective := fun i j h => by simpa using h

def quartet : Config where
  members := ["a", "b", "c", "d"]
  nodup := by decide
  addr := fun i => ⟨i, 7000⟩
  addr_injective := fun i j h => by simpa using h

end MeshWeaver
