import MeshWeaver.Cluster.StableLeader

/-!
# One stable leader refines a single append-only log

From empty logs, under one stable leader, every state of a run shows one growing log, the leader's: the followers
hold beginnings of it, commit no further than the leader, and each state machine is what the first `last_applied`
entries lead to (`stable_leader_refines_log`), as long as no call of `apply_command` raises.
-/

namespace MeshWeaver

open Lib
open RaftReplicationEngine

namespace StableLeader

variable {cfg : Config} {leader : String} {s : RaftNet} {T : Int} {views : String → View}
  {i : String} {input : EngineInput} {eng : RaftReplicationEngine}
  {out : List (Address × RaftMsg)}

theorem replayed_of_move (h : Inv cfg leader s) (hleader : leader ∈ cfg.members)
    (hi : i ∈ cfg.members) (hmove : Move (views i) (cfg.peers i) (s.node i) input eng out)
    (hrecv : ∀ pkt, input.packet? = some pkt → pkt ∈ s.sent ∧ pkt.dst = cfg.addr i)
    (hold : NoRaise (s.node i) → Replayed (s.node i)) (hno : NoRaise eng) : Replayed eng := by
  have hun := h.uncompacted i hi
  have hlen := h.commit_le_length i hi
  have hkept : ∀ {e : RaftReplicationEngine}, e.log = (s.node i).log →
      e.stateMachine = (s.node i).stateMachine → e.applyCalls = (s.node i).applyCalls →
      NoRaise e → Replayed e := by
    intro e hlog hsm hcalls hno
    have hold' := hold (hno.of_append (by rw [hcalls, List.append_nil]))
    exact hold'.of_log hcalls hsm (by rw [hlog]) (by rw [hlog]; exact hold'.le_commit) (by rw [hlog])
  cases hmove with
  | quiet hlog _ _ hsm hcalls => exact hkept hlog hsm hcalls hno
  | broadcast _ _ hsame | refuse _ _ _ _ hsame => exact hkept (by rw [hsame]) (by rw [hsame]) (by rw [hsame]) hno
  | record pkt resp _ _ heng =>
    obtain ⟨hlog, -, hsm, hcalls⟩ := recordPacket_kept (s.node i) pkt resp
    exact hkept (by rw [heng, hlog]) (by rw [heng, hsm]) (by rw [heng, hcalls]) hno
  | propose _ e eng₁ happ now hrest =>
    have hun₁ := happ.uncompacted hun
    obtain ⟨-, -, hlog, -, -, hsm, hcalls⟩ := happ
    have h₁ : NoRaise eng₁ → Replayed eng₁ := fun hno₁ => by
      have hold' := hold (hno₁.of_append (by rw [hcalls, List.append_nil]))
      have hle := hold'.le_commit
      refine hold'.of_log hcalls hsm (by rw [hlog]) (by rw [hlog]; exact hle) ?_
      rw [hlog]
      exact List.take_append_of_le_length (by omega)
    rcases hrest with ⟨-, hto, -⟩ | ⟨-, rfl, -⟩
    · exact Replayed.commitsTo h₁ hun₁ hto hno
    · exact h₁ hno
  | accept pkt req hin hreq res hacc _ =>
    obtain ⟨hsent, hdst⟩ := hrecv pkt hin
    obtain ⟨-, -, -, L, hL, hbuilt⟩ := h.request hsent hdst hreq
    have hnum := (h.uncompacted leader hleader).numbered.of_isPrefix hL
    have hF := h.isPrefix i hi
    have hacc' := hacc L hnum (Agree.of_common hF hL) hbuilt
    have hnc : ¬ Conflicts LogEntry.term
        ((s.node i).log.entries.drop req.prevLogIndex.toNat) req.entries := by
      rw [hbuilt.entries]
      exact not_conflicts_of_common hF hL _
    have hgrow : (s.node i).log.entries <+:
        ((s.node i).log.merged req.prevLogIndex.toNat req.entries).entries := by
      rw [← hacc'.merged]
      rcases hacc'.entries with ⟨heq, hconf | hle⟩ | ⟨heq, -, -⟩
      · exact absurd hconf hnc
      · rw [heq]
        exact List.prefix_of_prefix_length_le hF hL hle
      · rw [heq]
    obtain ⟨calls, hcalls, -⟩ := hacc'.calls
    have h₁ := (hold (hno.of_append hcalls)).merged hnc hgrow hlen
    have hun₁ : ((s.node i).log.merged req.prevLogIndex.toNat req.entries).Uncompacted :=
      ⟨hun.noSnapshot, by rw [← hacc'.merged]; exact hacc'.uncompacted.numbered⟩
    obtain ⟨clock, ⟨n, rfl⟩ | rfl⟩ := hacc'.result
    · exact h₁.commitTo hun₁ n hno
    · exact h₁
  | commit pkt resp _ _ _ _ n _ _ _ hto =>
    obtain ⟨hlog, -, hsm, hcalls⟩ := recordPacket_kept (s.node i) pkt resp
    exact Replayed.commitsTo (hkept hlog hsm hcalls) (hlog ▸ hun) hto hno

/-! ### Whole runs -/

theorem inv_init (cfg : Config) (leader : String) : Inv cfg leader RaftNet.init where
  nodeId := fun _ _ => rfl
  uncompacted := fun _ _ => RaftLog.Uncompacted.empty
  isPrefix := fun _ _ => List.prefix_refl _
  commit_nonneg := fun _ _ => le_rfl
  commit_le_length := fun _ _ => le_rfl
  commit_le := fun _ _ => le_rfl
  packets := by simp [RaftNet.init]
  progress := ⟨Records.init cfg leader, fun _ _ _ => le_rfl⟩

theorem Inv.noSnapshots (h : Inv cfg leader s) : RaftNet.NoSnapshots s := fun pkt hpkt =>
  (h.packets pkt hpkt).imp (fun ⟨req, hreq, _⟩ => ⟨req, hreq⟩) fun ⟨resp, hresp, _⟩ => ⟨resp, hresp⟩

theorem inv_step (h : Inv cfg leader s) (hleader : leader ∈ cfg.members) (ev : ViewedEvent)
    (hview : StableView leader T ev.1) : Inv cfg leader (step cfg s ev) := by
  rcases RaftNet.step_cases h.noSnapshots h.uncompacted ev.1 ev.2 with
    heq | ⟨i, hi, input, eng, out, hmove, hrecv, heq⟩
  · rw [step, heq]; exact h
  · rw [step, heq]
    exact h.update hleader hi (effect_of_move h hleader hi hview hmove
      fun pkt hpkt => ⟨(hrecv pkt hpkt).1, (hrecv pkt hpkt).2.1⟩)

theorem replayed_step (h : Inv cfg leader s) (hleader : leader ∈ cfg.members) (ev : ViewedEvent)
    (hold : ∀ i ∈ cfg.members, NoRaise (s.node i) → Replayed (s.node i)) :
    ∀ i ∈ cfg.members, NoRaise ((step cfg s ev).node i) → Replayed ((step cfg s ev).node i) := by
  rcases RaftNet.step_cases h.noSnapshots h.uncompacted ev.1 ev.2 with
    heq | ⟨i, hi, input, eng, out, hmove, hrecv, heq⟩
  · rw [step, heq]; exact hold
  · rw [step, heq]
    intro j hj
    by_cases hji : j = i
    · rw [hji, Net.update_node_self]
      exact replayed_of_move h hleader hi hmove
        (fun pkt hpkt => ⟨(hrecv pkt hpkt).1, (hrecv pkt hpkt).2.1⟩) (hold i hi)
    · rw [Net.update_node_of_ne hji]
      exact hold j hj

/-- **Replication under one stable leader refines a single append-only log.** In every state of a run
from empty logs in which no call of `apply_command` has raised, each node holds a beginning of the
leader's log, has committed no more than the leader, is recorded with no more than it holds, and has
a state machine that the first `last_applied` entries of the leader's log lead to. -/
theorem stable_leader_refines_log (cfg : Config) (leader : String) (hleader : leader ∈ cfg.members)
    (T : Int) (evs : List ViewedEvent)
    (hrun : Along (step cfg) (fun _ ev => StableView leader T ev.1) RaftNet.init evs)
    (hno : ∀ i ∈ cfg.members, NoRaise ((run (step cfg) RaftNet.init evs).node i)) :
    let s := run (step cfg) RaftNet.init evs
    ∀ i ∈ cfg.members,
      (s.node i).log.entries <+: (s.node leader).log.entries ∧
      (s.node i).log.commitIndex ≤ (s.node leader).log.commitIndex ∧
      (i ≠ leader → ∀ key, key = .node i ∨ key = .addr (cfg.addr i) →
        (s.node leader).matchOf key ≤ (s.node i).log.lastIndex) ∧
      (s.node i).applyCalls.map ApplyCall.entry =
        (s.node leader).log.entries.take (s.node i).log.lastApplied.toNat ∧
      (s.node i).stateMachine = replay (s.node i).applyCalls .empty := by
  intro s i hi
  have hinv := Along.invariant
    (I := fun s => Inv cfg leader s ∧ ∀ i ∈ cfg.members, NoRaise (s.node i) → Replayed (s.node i))
    (fun s ev h hview => ⟨inv_step h.1 hleader ev hview, replayed_step h.1 hleader ev h.2⟩)
    ⟨inv_init cfg leader, fun j _ _ => Replayed.init j⟩ hrun
  obtain ⟨h, hreplay⟩ := hinv
  have hr := hreplay i hi (hno i hi)
  have hpre := h.isPrefix i hi
  refine ⟨hpre, h.commit_le i hi, fun hne key hkey => ?_, ?_, hr.machine⟩
  · have hmatch := h.progress.matchOf_le i hi hne
    have halias := h.progress.aliased i
    rw [(h.uncompacted i hi).lastIndex]
    rcases hkey with rfl | rfl
    · exact halias.trans hmatch
    · exact hmatch
  · -- what has been applied lies in the node's own log
    have hle := hr.le_commit
    have hlen := h.commit_le_length i hi
    rw [hr.calls]
    conv_lhs => rw [List.prefix_iff_eq_take.mp hpre, List.take_take, min_eq_left (by omega)]

def oneCommand : List ViewedEvent :=
  [(stableView "a" 1, .propose "a" (writeCommand "x") 1 fun _ => 0),
    (stableView "a" 1, .deliver 0 1 fun _ => 0), (stableView "a" 1, .deliver 2 1 fun _ => 0)]

theorem stable_leader_refines_log_trio :
    ((run (step trio) RaftNet.init oneCommand).node "b").log.lastIndex = 1 ∧
      ((run (step trio) RaftNet.init oneCommand).node "b").log.entries <+:
        ((run (step trio) RaftNet.init oneCommand).node "a").log.entries :=
  ⟨by decide, (stable_leader_refines_log trio "a" (by decide) 1 oneCommand
    ⟨stableView_stable "a" 1, stableView_stable "a" 1, stableView_stable "a" 1, trivial⟩
    (by decide) "b" (by decide)).1⟩

end StableLeader

end MeshWeaver
