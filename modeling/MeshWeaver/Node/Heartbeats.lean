import Mathlib.Data.List.Induction
import MeshWeaver.Node.Peers

/-!
# The order in which heartbeats arrive

`receive_heartbeat` puts the heartbeat in the place of the one that it has of the same sender, whichever of
them is older. So the table has the heartbeat that arrived last, and two orders of delivery lead to the same
table, with the newest heartbeat of each sender, exactly if in both of them this one is the last to arrive.
-/

namespace MeshWeaver

open Lib

deriving instance DecidableEq for Heartbeat

/-- What `receive_heartbeat` stores. -/
def Heartbeat.snapshot (heartbeat : Heartbeat) : PeerLoadSnapshot :=
  { nodeId := heartbeat.senderId, ip := heartbeat.ip, udpPort := heartbeat.udpPort, tcpPort := heartbeat.tcpPort,
    cpuPercent := heartbeat.cpuPercent, ramPercent := heartbeat.ramPercent, timestamp := heartbeat.timestamp }

theorem Heartbeat.snapshot_injective : Function.Injective Heartbeat.snapshot := by
  rintro ⟨⟩ ⟨⟩ h
  simpa [snapshot] using h

namespace GossipManager

section Definitions

variable (g : GossipManager)

def deliver (heartbeats : List Heartbeat) : GossipManager := run receiveHeartbeat g heartbeats

def last? (heartbeats : List Heartbeat) (senderId : String) : Option Heartbeat :=
  (heartbeats.filter fun heartbeat => heartbeat.senderId = senderId).getLast?

/-- After the delivery the table has the newest heartbeat of each sender, and no sender expires before all its
heartbeats are too old. -/
structure HoldsNewest (heartbeats : List Heartbeat) : Prop where
  newest : ∀ heartbeat ∈ heartbeats, ∃ newest ∈ heartbeats, newest.senderId = heartbeat.senderId ∧
    (g.deliver heartbeats).peerLoads.get? heartbeat.senderId = some newest.snapshot ∧
    ∀ other ∈ heartbeats, other.senderId = heartbeat.senderId → other.timestamp ≤ newest.timestamp
  kept : ∀ (now : Rat), ∀ heartbeat ∈ heartbeats, now - heartbeat.timestamp ≤ g.deadNodeTimeout →
    ((g.deliver heartbeats).expireDeadNodes now).peerLoads.get? heartbeat.senderId ≠ none

/-- Two orders of delivery lead to the same table, with the newest heartbeats. -/
def Converges (heartbeats reordered : List Heartbeat) : Prop :=
  (∀ id, (g.deliver heartbeats).peerLoads.get? id = (g.deliver reordered).peerLoads.get? id) ∧
    g.HoldsNewest heartbeats ∧ g.HoldsNewest reordered

/-- In both orders the same heartbeat of a sender arrives last, and it is the newest. -/
def NewestLast (heartbeats reordered : List Heartbeat) : Prop :=
  ∀ heartbeat ∈ heartbeats, ∃ newest ∈ last? heartbeats heartbeat.senderId,
    last? reordered heartbeat.senderId = some newest ∧
      ∀ other ∈ heartbeats, other.senderId = heartbeat.senderId → other.timestamp ≤ newest.timestamp

end Definitions

variable {g : GossipManager} {heartbeats reordered : List Heartbeat} {heartbeat : Heartbeat}

theorem get?_receiveHeartbeat (h : heartbeat.senderId ≠ "") (id : String) :
    (g.receiveHeartbeat heartbeat).peerLoads.get? id =
      if id = heartbeat.senderId then some heartbeat.snapshot else g.peerLoads.get? id := by
  rw [receiveHeartbeat, if_neg h]
  exact Dict.get?_insert ..

theorem last?_concat (heartbeats : List Heartbeat) (heartbeat : Heartbeat) (id : String) :
    last? (heartbeats ++ [heartbeat]) id =
      if id = heartbeat.senderId then some heartbeat else last? heartbeats id := by
  rw [last?, List.filter_append]
  split_ifs with hid
  · simp [hid]
  · simp [last?, Ne.symm hid]

/-- **The table has what arrived last.** -/
theorem get?_deliver (hwell : ∀ heartbeat ∈ heartbeats, heartbeat.senderId ≠ "") (id : String) :
    (g.deliver heartbeats).peerLoads.get? id =
      ((last? heartbeats id).map Heartbeat.snapshot).or (g.peerLoads.get? id) := by
  induction heartbeats using List.reverseRecOn with
  | nil => rfl
  | append_singleton heartbeats heartbeat ih =>
    rw [List.forall_mem_append, List.forall_mem_singleton] at hwell
    rw [deliver, run_append, run_cons, run_nil, get?_receiveHeartbeat hwell.2, last?_concat]
    split_ifs with hid
    · rfl
    · exact ih hwell.1

theorem deadNodeTimeout_deliver (g : GossipManager) (heartbeats : List Heartbeat) :
    (g.deliver heartbeats).deadNodeTimeout = g.deadNodeTimeout := by
  refine run_invariant (I := fun g' : GossipManager => g'.deadNodeTimeout = g.deadNodeTimeout) ?_ rfl _
  intro g' heartbeat h
  rw [receiveHeartbeat]
  split_ifs
  · exact h
  · exact h

theorem get?_expireDeadNodes (g : GossipManager) (now : Rat) {id : String} {snapshot : PeerLoadSnapshot}
    (h : g.peerLoads.get? id = some snapshot) :
    (g.expireDeadNodes now).peerLoads.get? id =
      if now - snapshot.timestamp > g.deadNodeTimeout then none else some snapshot := by
  have hdead : id ∈ (g.peerLoads.filterValues fun snapshot =>
      decide (now - snapshot.timestamp > g.deadNodeTimeout)).keys ↔
        now - snapshot.timestamp > g.deadNodeTimeout := by
    rw [← not_iff_not, ← Dict.get?_eq_none_iff, Option.eq_none_iff_forall_ne_some]
    simp only [ne_eq, Dict.get?_filterValues, h, Option.some_inj, decide_eq_true_eq]
    exact ⟨fun hall hold => hall snapshot ⟨rfl, hold⟩, fun hyoung other hother => hyoung (hother.1 ▸ hother.2)⟩
  rw [expireDeadNodes, Dict.get?_foldl_erase, h]
  simp only [hdead]

theorem mem_of_last? {id : String} (h : heartbeat ∈ last? heartbeats id) :
    heartbeat ∈ heartbeats ∧ heartbeat.senderId = id := by
  have hmem := List.mem_of_getLast? h
  rwa [List.mem_filter, decide_eq_true_eq] at hmem

theorem exists_last? (h : heartbeat ∈ heartbeats) : ∃ newest, last? heartbeats heartbeat.senderId = some newest := by
  rw [← Option.isSome_iff_exists, last?, List.getLast?_isSome]
  exact List.ne_nil_of_mem (List.mem_filter.mpr ⟨h, decide_eq_true rfl⟩)

theorem holdsNewest_iff (hwell : ∀ heartbeat ∈ heartbeats, heartbeat.senderId ≠ "") :
    g.HoldsNewest heartbeats ↔ ∀ heartbeat ∈ heartbeats, ∀ newest ∈ last? heartbeats heartbeat.senderId,
      ∀ other ∈ heartbeats, other.senderId = heartbeat.senderId → other.timestamp ≤ newest.timestamp := by
  have hstored : ∀ {heartbeat newest : Heartbeat}, last? heartbeats heartbeat.senderId = some newest →
      (g.deliver heartbeats).peerLoads.get? heartbeat.senderId = some newest.snapshot := by
    intro heartbeat newest hlast
    rw [get?_deliver hwell, hlast]
    rfl
  constructor
  · intro h heartbeat hmem last hlast
    obtain ⟨newest, -, -, hget, hnewest⟩ := h.newest heartbeat hmem
    rw [hstored hlast, Option.some_inj] at hget
    rwa [Heartbeat.snapshot_injective hget]
  · intro h
    refine ⟨fun heartbeat hmem => ?_, fun now heartbeat hmem hyoung => ?_⟩
    · obtain ⟨newest, hlast⟩ := exists_last? hmem
      obtain ⟨hnewest, hsender⟩ := mem_of_last? hlast
      exact ⟨newest, hnewest, hsender, hstored hlast, h heartbeat hmem newest hlast⟩
    · obtain ⟨newest, hlast⟩ := exists_last? hmem
      have htimestamp : heartbeat.timestamp ≤ newest.snapshot.timestamp :=
        h heartbeat hmem newest hlast heartbeat hmem rfl
      rw [get?_expireDeadNodes _ now (hstored hlast), deadNodeTimeout_deliver, if_neg]
      · exact Option.some_ne_none _
      · linarith

/-- **Heartbeats in two orders.** For every manager, heartbeats and two orders of delivery, where a heartbeat may
arrive more than once, the tables are equal and have the newest heartbeats, if and only if in both orders the
same heartbeat of each sender arrives last and is the newest. -/
theorem converges_iff (g : GossipManager) (hwell : ∀ heartbeat ∈ heartbeats, heartbeat.senderId ≠ "")
    (hsame : ∀ heartbeat, heartbeat ∈ heartbeats ↔ heartbeat ∈ reordered) :
    g.Converges heartbeats reordered ↔ NewestLast heartbeats reordered := by
  have hwell' : ∀ heartbeat ∈ reordered, heartbeat.senderId ≠ "" := fun heartbeat hmem =>
    hwell heartbeat ((hsame heartbeat).mpr hmem)
  rw [Converges, holdsNewest_iff hwell, holdsNewest_iff hwell']
  constructor
  · rintro ⟨hequal, hnewest, -⟩ heartbeat hmem
    obtain ⟨newest, hlast⟩ := exists_last? hmem
    obtain ⟨newest', hlast'⟩ := exists_last? ((hsame heartbeat).mp hmem)
    have hget := hequal heartbeat.senderId
    rw [get?_deliver hwell, get?_deliver hwell', hlast, hlast'] at hget
    have hsnapshot : newest.snapshot = newest'.snapshot := Option.some_inj.mp hget
    refine ⟨newest, hlast, ?_, hnewest heartbeat hmem newest hlast⟩
    rw [hlast', Heartbeat.snapshot_injective hsnapshot]
  · intro h
    refine ⟨fun id => ?_, fun heartbeat hmem last hlast => ?_, fun heartbeat hmem last hlast other hother => ?_⟩
    · have hlast : last? heartbeats id = last? reordered id := by
        cases hid : last? heartbeats id with
        | some last =>
          obtain ⟨hmem, rfl⟩ := mem_of_last? hid
          obtain ⟨newest, hnewest, hnewest', -⟩ := h last hmem
          rw [hnewest', ← hid, hnewest]
        | none =>
          cases hid' : last? reordered id with
          | none => rfl
          | some last =>
            obtain ⟨hmem, rfl⟩ := mem_of_last? hid'
            obtain ⟨newest, hnewest⟩ := exists_last? ((hsame last).mpr hmem)
            rw [hid] at hnewest
            cases hnewest
      rw [get?_deliver hwell, get?_deliver hwell', hlast]
    · obtain ⟨newest, hnewest, -, hle⟩ := h heartbeat hmem
      cases hnewest.symm.trans hlast
      exact hle
    · obtain ⟨newest, -, hnewest, hle⟩ := h heartbeat ((hsame heartbeat).mpr hmem)
      cases hnewest.symm.trans hlast
      exact hle other ((hsame other).mpr hother)

def earlier : Heartbeat := ⟨"a", "10.0.0.1", 9000, 9001, 0, 0, 1⟩
def later : Heartbeat := { earlier with timestamp := 100 }

def silent : GossipManager :=
  { nodeId := "b", host := "10.0.0.2", udpPort := 9000, deadNodeTimeout := 15, peerLoads := .empty,
    neighbors := .empty }

theorem converges_duplicate : silent.Converges [earlier, later] [later, earlier, earlier, later] := by
  have hsame : ∀ heartbeat, heartbeat ∈ [earlier, later] ↔ heartbeat ∈ [later, earlier, earlier, later] := by
    intro heartbeat
    simp only [List.mem_cons, List.not_mem_nil, or_false]
    tauto
  refine (converges_iff silent (by decide) hsame).mpr fun heartbeat hmem => ?_
  have hsender : heartbeat.senderId = "a" := by
    simp only [List.mem_cons, List.not_mem_nil, or_false] at hmem
    rcases hmem with rfl | rfl <;> rfl
  rw [hsender]
  exact ⟨later, by decide +kernel, by decide +kernel, by decide +kernel⟩

/-- **A late heartbeat makes its sender look dead.** The newer heartbeat is 5 seconds old, but the table has the
older one, and the peer expires. -/
theorem not_converges_late :
    ((silent.deliver [later, earlier]).peerLoads.get? "a").map (fun snapshot => snapshot.timestamp) = some 1 ∧
      ((silent.deliver [earlier, later]).peerLoads.get? "a").map (fun snapshot => snapshot.timestamp) =
        some 100 ∧
      105 - later.timestamp ≤ silent.deadNodeTimeout ∧
      (((silent.deliver [later, earlier]).expireDeadNodes 105).peerLoads.get? "a").isNone ∧
      ¬ silent.Converges [later, earlier] [earlier, later] := by
  refine ⟨by decide +kernel, by decide +kernel, by decide +kernel, by decide +kernel, fun h => ?_⟩
  have htimestamp := congrArg (Option.map PeerLoadSnapshot.timestamp) (h.1 "a")
  revert htimestamp
  decide +kernel

end GossipManager

end MeshWeaver
