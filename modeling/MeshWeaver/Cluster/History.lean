import MeshWeaver.Cluster.System

/-!
# The logs of past leaders

A `History` has for every term the node that was promoted in it and the log that node had when it last led the
term. A log is `Traced` when up to every entry it is a beginning of the log of that entry's term. All logs are
traced, and so is every log a request in flight was built from; two traced logs agree. While a node leads, its
log must grow by its own proposals only, which needs that no leader accepts a request of a later term
(`Unchallenged`).
-/

namespace MeshWeaver

open Lib ElectionNet
open RaftReplicationEngine

/-- Who led each term, and the log it led it with. -/
structure History where
  leader : Int → Option String
  log : Int → List LogEntry

namespace History

def init : History := ⟨fun _ => none, fun _ => []⟩

def promote (H : History) (T : Int) (a : String) (es : List LogEntry) : History :=
  ⟨Function.update H.leader T (some a), Function.update H.log T es⟩

def append (H : History) (T : Int) (e : LogEntry) : History :=
  ⟨H.leader, Function.update H.log T (H.log T ++ [e])⟩

section lemmas

variable {H : History} {T U : Int} {a : String} {es : List LogEntry} {e : LogEntry}

@[simp] theorem promote_leader_self : (H.promote T a es).leader T = some a := Function.update_self ..

@[simp] theorem promote_leader_of_ne (h : U ≠ T) : (H.promote T a es).leader U = H.leader U :=
  Function.update_of_ne h ..

@[simp] theorem promote_log_self : (H.promote T a es).log T = es := Function.update_self ..

@[simp] theorem promote_log_of_ne (h : U ≠ T) : (H.promote T a es).log U = H.log U :=
  Function.update_of_ne h ..

@[simp] theorem append_leader : (H.append T e).leader = H.leader := rfl

@[simp] theorem append_log_self : (H.append T e).log T = H.log T ++ [e] := Function.update_self ..

@[simp] theorem append_log_of_ne (h : U ≠ T) : (H.append T e).log U = H.log U :=
  Function.update_of_ne h ..

end lemmas

structure Extends (H H' : History) : Prop where
  leader : ∀ T a, H.leader T = some a → H'.leader T = some a
  log : ∀ T, H.log T <+: H'.log T

theorem extends_refl (H : History) : H.Extends H := ⟨fun _ _ h => h, fun _ => List.prefix_refl _⟩

theorem extends_append (H : History) (T : Int) (e : LogEntry) : H.Extends (H.append T e) := by
  refine ⟨fun _ _ h => h, fun U => ?_⟩
  by_cases hU : U = T
  · subst hU
    rw [append_log_self]
    exact List.prefix_append _ _
  · rw [append_log_of_ne hU]

theorem extends_promote {H : History} {T : Int} (hnone : H.leader T = none) (hnil : H.log T = [])
    (a : String) (es : List LogEntry) : H.Extends (H.promote T a es) := by
  refine ⟨fun U b hU => ?_, fun U => ?_⟩
  · have hne : U ≠ T := by
      rintro rfl
      rw [hnone] at hU
      cases hU
    rw [promote_leader_of_ne hne, hU]
  · by_cases hU : U = T
    · rw [hU, hnil]
      exact List.nil_prefix
    · rw [promote_log_of_ne hU]

end History

/-- Up to each of its entries the log is a beginning of the log of that entry's term. -/
def Traced (H : History) (es : List LogEntry) : Prop :=
  ∀ (k : Nat) (e : LogEntry), es[k]? = some e → es.take (k + 1) <+: H.log e.term

namespace Traced

variable {H H' : History} {es fs : List LogEntry}

theorem nil : Traced H [] := by simp [Traced]

theorem of_isPrefix (h : Traced H fs) (hp : es <+: fs) : Traced H es := by
  intro k e he
  have hfs := h k e (getElem?_of_isPrefix hp he)
  have hk : k < es.length := (List.getElem?_eq_some_iff.mp he).1
  rwa [List.prefix_iff_eq_take.mp hp, List.take_take, min_eq_left (by omega)]

theorem mono (h : Traced H es) (hext : H.Extends H') : Traced H' es :=
  fun k e he => (h k e he).trans (hext.log e.term)

theorem log_ne_nil (h : Traced H es) {k : Nat} {e : LogEntry} (he : es[k]? = some e) : H.log e.term ≠ [] := by
  intro hnil
  have hpre := h k e he
  rw [hnil, List.prefix_nil, List.take_eq_nil_iff] at hpre
  rcases hpre with h0 | h0
  · omega
  · simp [h0] at he

theorem append (h : Traced H es) {T : Int} {e : LogEntry} (hT : e.term = T) (hes : es = H.log T) :
    Traced (H.append T e) (es ++ [e]) := by
  intro k f hf
  rcases Nat.lt_or_ge k es.length with hlt | hge
  · rw [List.getElem?_append_left hlt] at hf
    rw [List.take_append_of_le_length hlt]
    exact (h.mono (H.extends_append T e)) k f hf
  · have hk : k = es.length := by
      have := (List.getElem?_eq_some_iff.mp hf).1
      simp only [List.length_append, List.length_singleton] at this
      omega
    subst hk
    rw [List.getElem?_concat_length, Option.some.injEq] at hf
    subst hf
    rw [hT, History.append_log_self, ← hes]
    exact List.take_prefix _ _

theorem agree (hes : Traced H es) (hfs : Traced H fs) : Agree es fs := by
  intro k e f he hf hterm
  have hk : k < es.length := (List.getElem?_eq_some_iff.mp he).1
  have hk' : k < fs.length := (List.getElem?_eq_some_iff.mp hf).1
  have h₁ := List.prefix_iff_eq_take.mp (hes k e he)
  have h₂ := List.prefix_iff_eq_take.mp (hfs k f hf)
  rw [List.length_take, min_eq_left (by omega)] at h₁ h₂
  rw [h₁, h₂, hterm]

end Traced

section invariant

variable (cfg : Config) (s : Cluster) (H : History)

/-- A request of the leader of its term, built from an earlier state of the leader's log. -/
def IsRequest (pkt : Packet RaftMsg) (req : AppendEntriesRequest) : Prop :=
  ∃ a x, H.leader req.term = some a ∧ x ∈ cfg.members ∧ x ≠ a ∧ pkt.src = cfg.addr a ∧
    pkt.dst = cfg.addr x ∧ ∃ L, L <+: H.log req.term ∧ BuiltFrom req L

def IsAnswer (pkt : Packet RaftMsg) (resp : AppendEntriesResponse) : Prop :=
  ∃ x ∈ cfg.members, ∃ a ∈ cfg.members, x ≠ a ∧ pkt.src = cfg.addr x ∧ pkt.dst = cfg.addr a ∧
    pkt.senderId = x ∧ resp.followerId = x

def IsPacket (pkt : Packet RaftMsg) : Prop :=
  (∃ req, pkt.payload = .appendEntriesRequest req ∧ IsRequest cfg H pkt req) ∨
    ∃ resp, pkt.payload = .appendEntriesResponse resp ∧ IsAnswer cfg pkt resp

structure LogInv : Prop where
  election : ElectionNet.Inv cfg s.election
  nodeId : ∀ i ∈ cfg.members, (s.raft.node i).nodeId = i
  uncompacted : ∀ i ∈ cfg.members, (s.raft.node i).log.Uncompacted
  led : ∀ T a, H.leader T = some a → a ∈ cfg.members ∧ ElectionNet.Won cfg s.election T a ∧ 1 ≤ T
  unled : ∀ T, H.leader T = none → H.log T = []
  numbered : ∀ T, ContiguousFrom 1 (H.log T)
  logs : ∀ i ∈ cfg.members, Traced H (s.entries i)
  histories : ∀ T, Traced H (H.log T)
  leads : ∀ a ∈ cfg.members, (s.view a).role = .leader →
    H.leader (s.view a).term = some a ∧ s.entries a = H.log (s.view a).term
  packets : ∀ pkt ∈ s.raft.sent, IsPacket cfg H pkt

/-- What a move of the replication engine of node `i` has to provide. -/
structure LogEffect (i : String) (eng : RaftReplicationEngine) (out : List (Address × RaftMsg))
    (H' : History) : Prop where
  history : H' = H ∨ (s.view i).role = .leader ∧ ∃ e : LogEntry, e.term = (s.view i).term ∧
    eng.log.entries = s.entries i ++ [e] ∧ H' = H.append (s.view i).term e
  nodeId : eng.nodeId = i
  uncompacted : eng.log.Uncompacted
  traced : Traced H' eng.log.entries
  leads : (s.view i).role = .leader → eng.log.entries = H'.log (s.view i).term
  packets : ∀ pkt ∈ cfg.mail i out, IsPacket cfg H' pkt

end invariant

variable {cfg : Config} {s : Cluster} {H H' : History} {pkt : Packet RaftMsg}

theorem IsPacket.mono (h : IsPacket cfg H pkt) (hext : H.Extends H') : IsPacket cfg H' pkt := by
  refine h.imp_left ?_
  rintro ⟨req, hreq, a, x, hlead, hx, hne, hsrc, hdst, L, hL, hbuilt⟩
  exact ⟨req, hreq, a, x, hext.leader _ _ hlead, hx, hne, hsrc, hdst, L, hL.trans (hext.log _), hbuilt⟩

namespace LogInv

theorem init (cfg : Config) : LogInv cfg Cluster.init History.init where
  election := inv_init cfg
  nodeId := fun _ _ => rfl
  uncompacted := fun _ _ => RaftLog.Uncompacted.empty
  led := by simp [History.init]
  unled := fun _ _ => rfl
  numbered := fun _ => ContiguousFrom.nil
  logs := fun _ _ => Traced.nil
  histories := fun _ => Traced.nil
  leads := by
    intro a _ hrole
    simp [Cluster.view, Cluster.init, ElectionNet.init, ElectionState.init] at hrole
  packets := by simp [Cluster.init, RaftNet.init]

theorem noSnapshots (h : LogInv cfg s H) : RaftNet.NoSnapshots s.raft := fun pkt hpkt =>
  (h.packets pkt hpkt).imp (fun ⟨req, hreq, _⟩ => ⟨req, hreq⟩) fun ⟨resp, hresp, _⟩ => ⟨resp, hresp⟩

variable {req : AppendEntriesRequest}

theorem request (h : LogInv cfg s H) {i : String} (hsent : pkt ∈ s.raft.sent) (hdst : pkt.dst = cfg.addr i)
    (hreq : pkt.payload = .appendEntriesRequest req) :
    ∃ a, H.leader req.term = some a ∧ i ≠ a ∧ pkt.src = cfg.addr a ∧ ∃ L, L <+: H.log req.term ∧ BuiltFrom req L := by
  rcases h.packets pkt hsent with ⟨req', hreq', a, x, hlead, -, hne, hsrc, hdst', hL⟩ |
    ⟨resp, hresp, -⟩
  · cases hreq.symm.trans hreq'
    obtain rfl := cfg.addr_injective (hdst.symm.trans hdst')
    exact ⟨a, hlead, hne, hsrc, hL⟩
  · rw [hreq] at hresp
    cases hresp

theorem answer (h : LogInv cfg s H) {i : String}
    {resp : AppendEntriesResponse} (hsent : pkt ∈ s.raft.sent) (hdst : pkt.dst = cfg.addr i)
    (hresp : pkt.payload = .appendEntriesResponse resp) :
    ∃ x ∈ cfg.members, x ≠ i ∧ pkt.src = cfg.addr x ∧ pkt.senderId = x ∧ resp.followerId = x := by
  rcases h.packets pkt hsent with ⟨req, hreq, -⟩ | ⟨resp', hresp', x, hx, a, -, hne, hsrc, hdst', hid⟩
  · rw [hresp] at hreq
    cases hreq
  · cases hresp.symm.trans hresp'
    obtain rfl := cfg.addr_injective (hdst.symm.trans hdst')
    exact ⟨x, hx, hne, hsrc, hid⟩

/-! ### Steps of the replication engines -/

section raft

variable {i : String} {eng : RaftReplicationEngine} {out : List (Address × RaftMsg)}
  {res : Except PyError AppendEntriesResponse}

theorem extends_of_effect (heff : LogEffect cfg s H i eng out H') : H.Extends H' := by
  rcases heff.history with rfl | ⟨-, e, -, -, rfl⟩
  · exact H'.extends_refl
  · exact H.extends_append _ e

theorem update (h : LogInv cfg s H) (hi : i ∈ cfg.members) (heff : LogEffect cfg s H i eng out H') :
    LogInv cfg (s.raftMoves cfg i eng out) H' := by
  have hext := extends_of_effect heff
  -- the log of a term changes only where its leader appends to it
  have hlog : ∀ T, H'.log T = H.log T ∨ (s.view i).role = .leader ∧ T = (s.view i).term ∧
      H'.log T = eng.log.entries := by
    intro T
    rcases heff.history with rfl | ⟨hrole, e, -, hentries, rfl⟩
    · exact Or.inl rfl
    · by_cases hT : T = (s.view i).term
      · refine Or.inr ⟨hrole, hT, ?_⟩
        rw [hT, History.append_log_self, ← (h.leads i hi hrole).2, hentries]
      · exact Or.inl (History.append_log_of_ne hT)
  have hleader : H'.leader = H.leader := by
    rcases heff.history with rfl | ⟨-, e, -, -, rfl⟩ <;> rfl
  refine ⟨h.election, fun j hj => ?_, fun j hj => ?_, ?_, fun T hT => ?_, fun T => ?_, fun j hj => ?_,
    fun T => ?_, fun a ha hrole => ?_, fun pkt hpkt => ?_⟩
  · rw [Net.update_node]
    split_ifs with hji
    · rw [hji, heff.nodeId]
    · exact h.nodeId j hj
  · rw [Net.update_node]
    split_ifs with hji
    · exact heff.uncompacted
    · exact h.uncompacted j hj
  · rw [hleader]
    exact h.led
  · rw [hleader] at hT
    rcases hlog T with hsame | ⟨hrole, rfl, -⟩
    · rw [hsame, h.unled T hT]
    · rw [(h.leads i hi hrole).1] at hT
      cases hT
  · rcases hlog T with hsame | ⟨-, -, hnew⟩
    · rw [hsame]
      exact h.numbered T
    · rw [hnew]
      exact heff.uncompacted.numbered
  · rw [Cluster.entries, Net.update_node]
    split_ifs with hji
    · exact heff.traced
    · exact (h.logs j hj).mono hext
  · rcases hlog T with hsame | ⟨-, -, hnew⟩
    · rw [hsame]
      exact (h.histories T).mono hext
    · rw [hnew]
      exact heff.traced
  · obtain ⟨hlead, hentries⟩ := h.leads a ha hrole
    refine ⟨hext.leader _ _ hlead, ?_⟩
    rw [Cluster.entries, Net.update_node]
    split_ifs with hai
    · subst hai
      exact heff.leads hrole
    · -- another leader leads another term
      rcases hlog (s.view a).term with hsame | ⟨hrole', hterm, -⟩
      · exact hentries.trans hsame.symm
      · have hlead' := (h.leads i hi hrole').1
        rw [← hterm, hlead, Option.some.injEq] at hlead'
        exact absurd hlead' hai
  · rcases Net.mem_sent_update.mp hpkt with hold | hnew
    · exact (h.packets pkt hold).mono hext
    · exact heff.packets pkt hnew

theorem isPacket_requests (hlead : H.leader (s.view i).term = some i) (hun : eng.log.Uncompacted)
    (hlog : eng.log.entries = H.log (s.view i).term) {now : Rat} :
    ∀ pkt ∈ cfg.mail i ((cfg.peers i).map fun peer =>
      (peer, eng.requestFor (s.view i).term now peer)), IsPacket cfg H pkt := by
  intro pkt hpkt
  obtain ⟨hsrc, -, hmem⟩ := Config.mem_mail hpkt
  obtain ⟨x, hx, hne, req, hm, hbuilt, hterm, -⟩ := mem_requests hun hmem
  rw [Prod.mk.injEq] at hm
  exact Or.inl ⟨req, hm.2, i, x, by rw [hterm, hlead], hx, hne, hsrc, hm.1, eng.log.entries,
    by rw [hterm, hlog], hbuilt⟩

theorem isPacket_answer (hi : i ∈ cfg.members) {a : String} (ha : a ∈ cfg.members) (hne : i ≠ a)
    (hout : ∀ m ∈ out, ∃ resp : AppendEntriesResponse,
      m = (cfg.addr a, .appendEntriesResponse resp) ∧ resp.followerId = i) :
    ∀ pkt ∈ cfg.mail i out, IsPacket cfg H pkt := by
  intro pkt hpkt
  obtain ⟨hsrc, hid, hmem⟩ := Config.mem_mail hpkt
  obtain ⟨resp, hm, hfid⟩ := hout _ hmem
  rw [Prod.mk.injEq] at hm
  exact Or.inr ⟨resp, hm.2, i, hi, a, ha, hne, hsrc, hm.1, hid, hfid⟩

theorem effect_of_entries (h : LogInv cfg s H) (hi : i ∈ cfg.members) (hid : eng.nodeId = i)
    (hun : eng.log.Uncompacted) (hentries : eng.log.entries = s.entries i)
    (hpackets : ∀ pkt ∈ cfg.mail i out, IsPacket cfg H pkt) : LogEffect cfg s H i eng out H := by
  refine ⟨Or.inl rfl, hid, hun, ?_, fun hrole => ?_, hpackets⟩
  · rw [hentries]
    exact h.logs i hi
  · rw [hentries]
    exact (h.leads i hi hrole).2

theorem effect_of_append (h : LogInv cfg s H) (hi : i ∈ cfg.members)
    (hrole : (s.view i).role = .leader) (hid : eng.nodeId = i) (hun : eng.log.Uncompacted)
    {e : LogEntry} (hterm : e.term = (s.view i).term) (hentries : eng.log.entries = s.entries i ++ [e])
    (hpackets : ∀ pkt ∈ cfg.mail i out, IsPacket cfg (H.append (s.view i).term e) pkt) :
    LogEffect cfg s H i eng out (H.append (s.view i).term e) := by
  obtain ⟨-, hlog⟩ := h.leads i hi hrole
  refine ⟨Or.inr ⟨hrole, e, hterm, hentries, rfl⟩, hid, hun, ?_, fun _ => ?_, hpackets⟩
  · rw [hentries]
    exact (h.logs i hi).append hterm hlog
  · rw [hentries, History.append_log_self, hlog]

theorem effect_of_accept (h : LogInv cfg s H) (hi : i ∈ cfg.members)
    {a : String} (hlead : H.leader req.term = some a) (hne : i ≠ a) {L : List LogEntry} (hL : L <+: H.log req.term)
    (hacc : Accepts (s.raft.node i) (s.view i).term req L eng res)
    (hown : (s.view i).role = .leader → req.term ≤ (s.view i).term)
    (hpackets : ∀ pkt ∈ cfg.mail i out, IsPacket cfg H pkt) : LogEffect cfg s H i eng out H := by
  refine ⟨Or.inl rfl, hacc.nodeId.trans (h.nodeId i hi), hacc.uncompacted, ?_, fun hrole => ?_,
    hpackets⟩
  · rcases hacc.entries with ⟨heq, -⟩ | ⟨heq, -⟩ <;> rw [heq]
    · exact (h.histories req.term).of_isPrefix hL
    · exact h.logs i hi
  · -- the sender leads the term of the request, and so does the receiver
    have hsame : req.term = (s.view i).term := le_antisymm (hown hrole) hacc.term_le
    have hlead' := (h.leads i hi hrole).1
    rw [← hsame, hlead, Option.some.injEq] at hlead'
    exact absurd hlead'.symm hne

theorem accepts (h : LogInv cfg s H) (hi : i ∈ cfg.members)
    {L : List LogEntry} (hL : L <+: H.log req.term) (hbuilt : BuiltFrom req L)
    (hacc : ∀ L, ContiguousFrom 1 L → Agree (s.entries i) L → BuiltFrom req L →
      Accepts (s.raft.node i) (s.view i).term req L eng res) :
    Accepts (s.raft.node i) (s.view i).term req L eng res :=
  hacc L ((h.numbered req.term).of_isPrefix hL)
    ((h.logs i hi).agree ((h.histories req.term).of_isPrefix hL)) hbuilt

/-- No request of a later term is accepted by a node whose role is LEADER. -/
def Unchallenged (cfg : Config) (s : Cluster) (ev : ClusterEvent) : Prop :=
  ∀ p ∈ s.requested cfg ev, (s.view p.1).role = .leader → (s.view p.1).term < p.2.term →
    (s.raft.node p.1).log.checkConsistency p.2.prevLogIndex p.2.prevLogTerm = false
deriving Decidable

theorem effect_of_move (h : LogInv cfg s H) (hi : i ∈ cfg.members) {ev : RaftEvent}
    (hok : Unchallenged cfg s (.raft ev)) {input : EngineInput}
    (hmove : Move (s.view i) (cfg.peers i) (s.raft.node i) input eng out)
    (hrecv : ∀ pkt, input.packet? = some pkt → pkt ∈ s.raft.sent ∧ pkt.dst = cfg.addr i ∧
      RaftNet.received cfg s.raft ev = some (i, pkt)) :
    ∃ H', LogEffect cfg s H i eng out H' := by
  have hnode := h.nodeId i hi
  have hun := h.uncompacted i hi
  cases hmove with
  | quiet hlog hid _ _ _ hout =>
    exact ⟨H, h.effect_of_entries hi (hid.trans hnode) (hlog ▸ hun) (congrArg _ hlog)
      (by simp [hout, Config.mail])⟩
  | propose hrole e eng₁ happ now hrest =>
    have hun₁ := happ.uncompacted hun
    obtain ⟨-, hterm, hlog, hid, -, -, -⟩ := happ
    have hentries₁ : eng₁.log.entries = s.entries i ++ [e] := by rw [hlog]; rfl
    refine ⟨H.append (s.view i).term e, ?_⟩
    rcases hrest with ⟨-, hto, rfl⟩ | ⟨-, rfl, rfl⟩
    · exact h.effect_of_append hi hrole (hto.nodeId.trans (hid.trans hnode)) (hto.uncompacted hun₁)
        hterm (hto.entries.trans hentries₁) (by simp [Config.mail])
    · obtain ⟨hlead, hhist⟩ := h.leads i hi hrole
      exact h.effect_of_append hi hrole (hid.trans hnode) hun₁ hterm hentries₁
        (isPacket_requests (H := H.append (s.view i).term e) hlead hun₁
          (by rw [hentries₁, History.append_log_self, hhist]))
  | broadcast hrole now hsame hout =>
    obtain ⟨hlead, hhist⟩ := h.leads i hi hrole
    subst hsame hout
    exact ⟨H, h.effect_of_entries hi hnode hun rfl (isPacket_requests hlead hun hhist)⟩
  | refuse pkt req hin hreq hsame resp _ hfid hout =>
    obtain ⟨hsent, hdst, -⟩ := hrecv pkt hin
    obtain ⟨a, hlead, hne, hsrc, -⟩ := h.request hsent hdst hreq
    subst hsame hout
    refine ⟨H, h.effect_of_entries hi hnode hun rfl
      (isPacket_answer hi (h.led _ a hlead).1 hne fun m hm => ⟨resp, ?_, hfid.trans hnode⟩)⟩
    rw [List.mem_singleton.mp hm, hsrc]
  | accept pkt req hin hreq res hacc hout =>
    obtain ⟨hsent, hdst, hev⟩ := hrecv pkt hin
    obtain ⟨a, hlead, hne, hsrc, L, hL, hbuilt⟩ := h.request hsent hdst hreq
    have hacc := h.accepts hi hL hbuilt hacc
    refine ⟨H, h.effect_of_accept hi hlead hne hL hacc (fun hrole => ?_)
      (isPacket_answer hi (h.led _ a hlead).1 hne fun m hm => ?_)⟩
    · by_contra hlt
      have hrefused := hok (i, req) (Cluster.requested_eq_some hev hreq) hrole (not_le.mp hlt)
      rw [hacc.check] at hrefused
      cases hrefused
    · obtain ⟨resp, hres, rfl⟩ := hout m hm
      exact ⟨resp, by rw [hsrc], by rw [hacc.answer resp hres]; exact hnode⟩
  | record pkt resp _ _ heng hout =>
    obtain ⟨hlog, hid, -, -⟩ := recordPacket_kept (s.raft.node i) pkt resp
    rw [← heng] at hlog hid
    exact ⟨H, h.effect_of_entries hi (hid.trans hnode) (hlog ▸ hun) (congrArg _ hlog)
      (by simp [hout, Config.mail])⟩
  | commit pkt resp _ _ _ _ n _ _ _ hto hout =>
    obtain ⟨hlog, hid, -, -⟩ := recordPacket_kept (s.raft.node i) pkt resp
    exact ⟨H, h.effect_of_entries hi (hto.nodeId.trans (hid.trans hnode))
      (hto.uncompacted (hlog ▸ hun)) (hto.entries.trans (congrArg _ hlog))
      (by simp [hout, Config.mail])⟩

end raft

/-! ### Steps of the election engines -/

def Promoted (s : Cluster) (i : String) (st : ElectionState) : Prop :=
  st.role = .leader ∧ ((s.view i).role = .leader → st.currentTerm ≠ (s.view i).term)

theorem leads_of_not_promoted {i : String} {st : ElectionState} (hp : ¬ Promoted s i st) (hrole : st.role = .leader) :
    (s.view i).role = .leader ∧ st.currentTerm = (s.view i).term := by
  simpa [Promoted, hrole] using hp

section election

variable {i : String} {input : ElectionState.ElectionInput} {st : ElectionState}
  {out : List (Address × ElectionMsg)} (h : LogInv cfg s H) (hi : i ∈ cfg.members)
  (hmove : ElectionState.Move i (cfg.peers i) (s.election.node i) input st out)
  (hrecv : ∀ pkt, input = .receive pkt → pkt ∈ s.election.sent ∧ pkt.dst = cfg.addr i)
include h hi hmove hrecv

theorem leader_eq_none (hp : Promoted s i st) : H.leader st.currentTerm = none := by
  rw [Option.eq_none_iff_forall_ne_some]
  intro b hb
  obtain ⟨-, hwon, -⟩ := h.led _ b hb
  have hinv' := inv_update h.election hmove hrecv hi
  have hbi : b = i := ElectionNet.Won.unique hinv' (hwon.update h.election hmove hrecv)
    (won_update h.election hmove hrecv hi hp.1)
  subst hbi
  have hle := term_le_of_move hmove
  rcases hwon.leads with hlt | ⟨hterm, hrole⟩
  · omega
  · exact hp.2 hrole hterm.symm

omit hi in
theorem led_update {T : Int} {a : String} (ha : H.leader T = some a) : a ∈ cfg.members ∧
    ElectionNet.Won cfg (s.election.update i st (cfg.mail i out)) T a ∧ 1 ≤ T := by
  obtain ⟨hmem, hwon, hpos⟩ := h.led T a ha
  exact ⟨hmem, hwon.update h.election hmove hrecv, hpos⟩

theorem update_election (hp : ¬ Promoted s i st) :
    LogInv cfg (s.electionMoves cfg i st out) H := by
  refine ⟨inv_update h.election hmove hrecv hi, h.nodeId, h.uncompacted,
    fun T a ha => led_update h hmove hrecv ha, h.unled,
    h.numbered, h.logs, h.histories, fun a ha => ?_, h.packets⟩
  simp only [Cluster.view, Cluster.entries, Net.update_node]
  split_ifs with hai
  · subst hai
    intro hrole
    obtain ⟨hold, hterm⟩ := leads_of_not_promoted hp hrole
    rw [hterm]
    exact h.leads a ha hold
  · exact h.leads a ha

theorem update_promoted (hp : Promoted s i st) :
    LogInv cfg (s.electionMoves cfg i st out) (H.promote st.currentTerm i (s.entries i)) := by
  have hnone := leader_eq_none h hi hmove hrecv hp
  have hnil := h.unled _ hnone
  have hext := History.extends_promote hnone hnil i (s.entries i)
  refine ⟨inv_update h.election hmove hrecv hi, h.nodeId, h.uncompacted,
    fun T a ha => ?_, fun T hT => ?_, fun T => ?_, fun j hj => (h.logs j hj).mono hext, fun T => ?_,
    fun a ha => ?_, fun pkt hpkt => (h.packets pkt hpkt).mono hext⟩
  · by_cases hT : T = st.currentTerm
    · subst hT
      rw [History.promote_leader_self, Option.some.injEq] at ha
      subst ha
      exact ⟨hi, won_update h.election hmove hrecv hi hp.1,
        term_pos_of_move h.election hmove (by simp [hp.1])⟩
    · rw [History.promote_leader_of_ne hT] at ha
      exact led_update h hmove hrecv ha
  · have hne : T ≠ st.currentTerm := by
      rintro rfl
      rw [History.promote_leader_self] at hT
      cases hT
    rw [History.promote_leader_of_ne hne] at hT
    rw [History.promote_log_of_ne hne, h.unled T hT]
  · by_cases hT : T = st.currentTerm
    · rw [hT, History.promote_log_self]
      exact (h.uncompacted i hi).numbered
    · rw [History.promote_log_of_ne hT]
      exact h.numbered T
  · by_cases hT : T = st.currentTerm
    · rw [hT, History.promote_log_self]
      exact (h.logs i hi).mono hext
    · rw [History.promote_log_of_ne hT]
      exact (h.histories T).mono hext
  · simp only [Cluster.view, Cluster.entries, Net.update_node]
    split_ifs with hai
    · subst hai
      intro _
      exact ⟨History.promote_leader_self, History.promote_log_self.symm⟩
    · intro hrole
      obtain ⟨hlead, hlog⟩ := h.leads a ha hrole
      have hne : (s.election.node a).currentTerm ≠ st.currentTerm := by
        intro heq
        rw [Cluster.view, heq, hnone] at hlead
        cases hlead
      rw [History.promote_leader_of_ne hne, History.promote_log_of_ne hne]
      exact ⟨hlead, hlog⟩

end election

/-- **Every step keeps the log invariant**, for some continuation of the history. -/
theorem step (h : LogInv cfg s H) (ev : ClusterEvent) (hok : Unchallenged cfg s ev) :
    ∃ H', LogInv cfg (s.step cfg ev) H' := by
  cases ev with
  | election ev =>
    rw [Cluster.step]
    rcases step_cases s.election ev with heq | ⟨i, hi, input, st, out, hmove, hrecv, heq⟩
    · rw [heq]
      exact ⟨H, h⟩
    · have hrecv := fun pkt hpkt => received_spec (hrecv pkt hpkt)
      rw [heq]
      by_cases hp : Promoted s i st
      · exact ⟨_, update_promoted h hi hmove hrecv hp⟩
      · exact ⟨H, update_election h hi hmove hrecv hp⟩
  | raft ev =>
    rw [Cluster.step]
    rcases RaftNet.step_cases h.noSnapshots h.uncompacted s.view ev with
      heq | ⟨i, hi, input, eng, out, hmove, hrecv, heq⟩
    · rw [heq]
      exact ⟨H, h⟩
    · rw [heq]
      obtain ⟨H', heff⟩ := h.effect_of_move hi hok hmove hrecv
      exact ⟨H', h.update hi heff⟩

end LogInv

end MeshWeaver
