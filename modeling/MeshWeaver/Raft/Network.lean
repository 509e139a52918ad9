import MeshWeaver.Cluster.Config
import MeshWeaver.Lib.Net
import MeshWeaver.Lib.Run
import MeshWeaver.Raft.LeaderFacts

/-!
# Replication over a network

The replication engines of a cluster exchange append requests and answers. What `get_term_and_role()`
returns at each node is given from outside (`view`), so that the same network can run under elections
or under one stable leader. `Move` says what one step can do to an engine whose log has never been
compacted.
-/

namespace MeshWeaver

open Lib

namespace RaftReplicationEngine

def EngineInput.Plain : EngineInput → Prop
  | .receive pkt _ _ =>
    match pkt.payload with
    | .appendEntriesRequest _ => True
    | .appendEntriesResponse _ => True
    | .installSnapshotRequest _ => False
    | .installSnapshotResponse _ => False
  | .createSnapshot _ _ => False
  | _ => True

def EngineInput.packet? : EngineInput → Option (Packet RaftMsg)
  | .receive pkt _ _ => some pkt
  | _ => none

/-- The progress recorded on an answer that came in a packet. -/
abbrev recordPacket (eng : Engine) (pkt : Packet RaftMsg) (resp : AppendEntriesResponse) : Engine :=
  eng.recordAnswer resp (followerKeys resp.followerId pkt.senderId (some pkt.src) 0)

theorem recordPacket_kept (eng : Engine) (pkt : Packet RaftMsg) (resp : AppendEntriesResponse) :
    (eng.recordPacket pkt resp).log = eng.log ∧ (eng.recordPacket pkt resp).nodeId = eng.nodeId ∧
      (eng.recordPacket pkt resp).stateMachine = eng.stateMachine ∧
      (eng.recordPacket pkt resp).applyCalls = eng.applyCalls :=
  recordAnswer_kept resp _ eng

/-- **What one step can do** to an engine with an uncompacted log. -/
inductive Move (view : View) (peers : List Address) (eng : Engine) (input : EngineInput)
    (eng' : Engine) (out : List (Address × RaftMsg)) : Prop
  | quiet (log : eng'.log = eng.log) (nodeId : eng'.nodeId = eng.nodeId)
      (followers : eng'.followers = eng.followers)
      (stateMachine : eng'.stateMachine = eng.stateMachine)
      (applyCalls : eng'.applyCalls = eng.applyCalls) (out : out = [])
  | propose (leader : view.role = .leader) (e : LogEntry) (eng₁ : Engine)
      (appends : Appends eng view.term e eng₁) (now : Rat)
      (rest : peers = [] ∧ CommitsTo eng₁ e.index eng' ∧ out = [] ∨
        peers ≠ [] ∧ eng' = eng₁ ∧
          out = peers.map fun peer => (peer, eng₁.requestFor view.term now peer))
  | broadcast (leader : view.role = .leader) (now : Rat) (same : eng' = eng)
      (out : out = peers.map fun peer => (peer, eng.requestFor view.term now peer))
  | refuse (pkt : Packet RaftMsg) (req : AppendEntriesRequest) (received : input.packet? = some pkt)
      (request : pkt.payload = .appendEntriesRequest req) (same : eng' = eng)
      (resp : AppendEntriesResponse) (failure : resp.success = false)
      (follower : resp.followerId = eng.nodeId)
      (out : out = [(pkt.src, .appendEntriesResponse resp)])
  | accept (pkt : Packet RaftMsg) (req : AppendEntriesRequest) (received : input.packet? = some pkt)
      (request : pkt.payload = .appendEntriesRequest req)
      (res : Except PyError AppendEntriesResponse)
      (accepts : ∀ L, ContiguousFrom 1 L → Agree eng.log.entries L → BuiltFrom req L →
        Accepts eng view.term req L eng' res)
      (out : ∀ m ∈ out, ∃ resp, res = .ok resp ∧ m = (pkt.src, .appendEntriesResponse resp))
  | record (pkt : Packet RaftMsg) (resp : AppendEntriesResponse)
      (received : input.packet? = some pkt)
      (response : pkt.payload = .appendEntriesResponse resp)
      (eng' : eng' = eng.recordPacket pkt resp) (out : out = [])
  | commit (pkt : Packet RaftMsg) (resp : AppendEntriesResponse)
      (received : input.packet? = some pkt)
      (response : pkt.payload = .appendEntriesResponse resp) (success : resp.success = true)
      (leader : view.role = .leader) (i : Int) (above : eng.log.commitIndex < i)
      (stored : i ≤ eng.log.entries.length)
      (quorum : (eng.recordPacket pkt resp).hasQuorum view.term peers i = true)
      (commits : CommitsTo (eng.recordPacket pkt resp) i eng') (out : out = [])

variable {eng : Engine} {view : View} {peers : List Address}

theorem move_receive (h : eng.log.Uncompacted) {pkt : Packet RaftMsg} {now : Rat} {clock : Clock}
    (hplain : (EngineInput.receive pkt now clock).Plain) :
    Move view peers eng (.receive pkt now clock) (eng.act view peers (.receive pkt now clock)).1
      (eng.act view peers (.receive pkt now clock)).2 := by
  cases hpay : pkt.payload with
  | appendEntriesRequest req =>
    simp only [act, hpay]
    rcases handleAppendEntriesRequest_refuses_or_accepts h view.term clock req with
      ⟨resp, hr, hfail, hid⟩ | hacc
    · rw [hr]
      exact .refuse pkt req rfl hpay rfl resp hfail hid rfl
    · rcases hr : eng.handleAppendEntriesRequest view.term clock req with ⟨eng', res⟩
      rw [hr] at hacc
      cases res with
      | ok resp | error e => exact .accept pkt req rfl hpay _ hacc (by simp)
  | appendEntriesResponse resp =>
    simp only [act, hpay]
    rcases handleAppendEntriesResponse_cases h view.term view.role peers clock resp pkt.senderId
      (some pkt.src) 0 with hrec | ⟨hs, hrole, i, habove, hstored, hq, hto⟩
    · exact .record pkt resp rfl hpay hrec rfl
    · exact .commit pkt resp rfl hpay hs hrole i habove hstored hq hto rfl
  | installSnapshotRequest req | installSnapshotResponse resp => simp [EngineInput.Plain, hpay] at hplain

theorem move_act (h : eng.log.Uncompacted) {input : EngineInput} (hplain : input.Plain) :
    Move view peers eng input (eng.act view peers input).1 (eng.act view peers input).2 := by
  cases input with
  | propose command now clock =>
    rcases proposeCommand_cases h view.term view.role peers now clock command with
      ⟨-, hsame, hout⟩ | ⟨hlead, e, eng₁, happ, hrest⟩
    · exact .quiet (by rw [act, hsame]) (by rw [act, hsame]) (by rw [act, hsame])
        (by rw [act, hsame]) (by rw [act, hsame]) hout
    · exact .propose hlead e eng₁ happ now hrest
  | broadcast now =>
    by_cases hlead : view.role = .leader
    · refine .broadcast hlead now rfl ?_
      exact if_neg (not_not.mpr hlead)
    · refine .quiet rfl rfl rfl rfl rfl ?_
      simp only [act, broadcastAppendEntries, ne_eq, hlead, not_false_eq_true, if_true]
  | receive pkt now clock => exact move_receive h hplain
  | timeout fut =>
    obtain ⟨hlog, hid, hfol, hsm, hcalls⟩ := proposalTimeout_kept eng fut
    exact .quiet hlog hid hfol hsm hcalls rfl
  | createSnapshot idx now => exact hplain.elim

end RaftReplicationEngine

/-! ### Requests and acknowledging members -/

section members

open RaftReplicationEngine

variable {cfg : Config} {i : String} {eng : RaftReplicationEngine}

theorem mem_requests (hun : eng.log.Uncompacted) {term : Int} {now : Rat} {m : Address × RaftMsg}
    (hm : m ∈ (cfg.peers i).map fun peer => (peer, eng.requestFor term now peer)) :
    ∃ x ∈ cfg.members, x ≠ i ∧ ∃ req, m = (cfg.addr x, .appendEntriesRequest req) ∧
      BuiltFrom req eng.log.entries ∧ req.term = term ∧ req.leaderCommit = eng.log.commitIndex := by
  obtain ⟨peer, hpeer, rfl⟩ := List.mem_map.mp hm
  obtain ⟨x, hx, hne, rfl⟩ := Config.mem_peers.mp hpeer
  obtain ⟨req, hreq, hbuilt, hterm, -, hcommit, -⟩ := requestFor_eq hun term now (cfg.addr x)
  exact ⟨x, hx, hne, req, by rw [hreq], hbuilt, hterm, hcommit⟩

/-- The progress records of node `i` belong to other members, and the record under an id is not ahead
of the one under the address. -/
structure Records (cfg : Config) (i : String) (eng : RaftReplicationEngine) : Prop where
  keys : ∀ key, (eng.followers.get? key).isSome →
    ∃ x ∈ cfg.members, x ≠ i ∧ (key = .node x ∨ key = .addr (cfg.addr x))
  aliased : ∀ x, eng.matchOf (.node x) ≤ eng.matchOf (.addr (cfg.addr x))

namespace Records

variable {eng eng' : RaftReplicationEngine} {pkt : Packet RaftMsg} {resp : AppendEntriesResponse}
  {x : String}

theorem init (cfg : Config) (i : String) : Records cfg i (RaftReplicationEngine.init i) :=
  ⟨by simp [RaftReplicationEngine.init], fun x => by simp [matchOf, RaftReplicationEngine.init]⟩

theorem congr (h : Records cfg i eng) (hfol : eng'.followers = eng.followers) : Records cfg i eng' := by
  refine ⟨by rw [hfol]; exact h.keys, fun x => ?_⟩
  have hx := h.aliased x
  rwa [matchOf, matchOf, ← hfol] at hx

theorem aliasedPeers (h : Records cfg i eng) : Aliased cfg.addr (cfg.peers i) eng := by
  intro x hx
  obtain ⟨y, hy, hne, hkey⟩ := h.keys _ hx
  simp only [PeerKey.node.injEq, reduceCtorEq, or_false] at hkey
  exact ⟨Config.mem_peers.mpr ⟨y, hy, hne, by rw [hkey]⟩, h.aliased x⟩

theorem matchOf_addr (hsrc : pkt.src = cfg.addr x) (y : String) :
    (eng.recordPacket pkt resp).matchOf (.addr (cfg.addr y)) =
      if resp.success = true ∧ y = x then max (eng.matchOf (.addr (cfg.addr y))) resp.matchIndex
      else eng.matchOf (.addr (cfg.addr y)) := by
  have hmem : PeerKey.addr (cfg.addr y) ∈ followerKeys resp.followerId pkt.senderId (some pkt.src) 0 ↔
      y = x := by
    rw [mem_followerKeys, hsrc]
    simp [cfg.addr_injective.eq_iff]
  rw [matchOf_recordAnswer]
  simp only [hmem]

theorem record (h : Records cfg i eng) (hx : x ∈ cfg.members) (hne : x ≠ i)
    (hsrc : pkt.src = cfg.addr x) (hid : pkt.senderId = x) (hfid : resp.followerId = x) :
    Records cfg i (eng.recordPacket pkt resp) := by
  refine ⟨fun key hkey => ?_, fun y => ?_⟩
  · rw [isSome_recordAnswer, Bool.or_eq_true, decide_eq_true_eq, mem_followerKeys] at hkey
    rcases hkey with hold | ⟨-, hk⟩ | ⟨-, hk⟩ | hk
    · exact h.keys key hold
    · exact ⟨x, hx, hne, Or.inl (by rw [hk, hfid])⟩
    · exact ⟨x, hx, hne, Or.inl (by rw [hk, hid])⟩
    · exact ⟨x, hx, hne, Or.inr (by rw [hk, hsrc])⟩
  · have hold := h.aliased y
    have hnode : PeerKey.node y ∈ followerKeys resp.followerId pkt.senderId (some pkt.src) 0 →
        y = x := by
      rw [mem_followerKeys, hfid, hid]
      simp
    rw [matchOf_addr hsrc, matchOf_recordAnswer]
    by_cases hs : resp.success = true ∧ y = x
    · split_ifs
      · exact max_le_max hold le_rfl
      · exact hold.trans (le_max_left _ _)
    · rwa [if_neg hs, if_neg fun hc => hs ⟨hc.1, hnode hc.2⟩]

end Records

def acknowledgers (cfg : Config) (i : String) (eng : RaftReplicationEngine) (n : Int) :
    Finset String :=
  cfg.members.toFinset.filter fun x => x ≠ i ∧ n ≤ eng.matchOf (.addr (cfg.addr x))

theorem card_acknowledgers (cfg : Config) (i : String) (eng : RaftReplicationEngine) (n : Int) :
    (acknowledgers cfg i eng n).card = eng.acknowledging (cfg.peers i) n := by
  have hset : acknowledgers cfg i eng n =
      (cfg.members.filter fun x => x ≠ i ∧ n ≤ eng.matchOf (.addr (cfg.addr x))).toFinset := by
    simp [acknowledgers]
  rw [hset, List.toFinset_card_of_nodup (cfg.nodup.filter _), acknowledging, Config.peers,
    List.countP_map, ← List.countP_eq_length_filter, List.countP_filter]
  simp [Bool.and_comm]

theorem majority_acknowledgers (hi : i ∈ cfg.members) {n : Int}
    (hhalf : ((cfg.peers i).length + 1) / 2 ≤ eng.acknowledging (cfg.peers i) n) :
    Majority cfg.members.toFinset (insert i (acknowledgers cfg i eng n)) := by
  refine Config.majority_of_quorum hi ?_ ?_
  · intro x hx
    rcases Finset.mem_insert.mp hx with rfl | hx
    · exact List.mem_toFinset.mpr hi
    · exact (Finset.mem_filter.mp hx).1
  · rw [Finset.card_insert_of_notMem (by simp [acknowledgers]), card_acknowledgers]
    omega

/-- **A commit with a safe tally has a majority**, in which every peer is recorded under its address
to hold the log up to the committed index. -/
theorem majority_of_hasQuorum (hi : i ∈ cfg.members) (hun : eng.log.Uncompacted) {pkt : Packet RaftMsg}
    {resp : AppendEntriesResponse} {term n : Int} (hs : resp.success = true)
    (hal : Aliased cfg.addr (cfg.peers i) (eng.recordPacket pkt resp))
    (hsafe : SafeTally eng term (cfg.peers i) pkt.src resp.matchIndex) (hpos : 1 ≤ n)
    (habove : eng.log.commitIndex < n) (hstored : n ≤ eng.log.entries.length)
    (hq : (eng.recordPacket pkt resp).hasQuorum term (cfg.peers i) n = true) :
    Majority cfg.members.toFinset (insert i (acknowledgers cfg i (eng.recordPacket pkt resp) n)) := by
  have htwice := half_le_of_hasQuorum cfg.addr_injective hal hpos hq
  have hterm : eng.log.getTerm n = term := by
    have := (of_decide_eq_true hq).1
    rwa [(recordPacket_kept eng pkt resp).1] at this
  rw [acknowledging_recordAnswer hs] at htwice
  have honce := hsafe n habove (by rw [hun.lastIndex]; exact hstored) hterm htwice
  rw [← acknowledging_recordAnswer hs eng (cfg.peers i) pkt.senderId] at honce
  exact majority_acknowledgers hi honce

end members

/-! ### The network -/

open RaftReplicationEngine (EngineInput)

abbrev RaftNet := Net String RaftReplicationEngine (Packet RaftMsg)

/-- `deliver k` hands over the `k`-th packet ever sent. The times are what `time.time()` returns
during the step. -/
inductive RaftEvent where
  | propose (i : String) (command : Command) (now : Rat) (clock : Clock)
  | broadcast (i : String) (now : Rat)
  | deliver (k : Nat) (now : Rat) (clock : Clock)
  | timeout (i : String) (fut : Nat)

namespace RaftNet

variable (cfg : Config)

def init : RaftNet := ⟨RaftReplicationEngine.init, []⟩

def stepAt (view : String → View) (s : RaftNet) (i : String) (input : EngineInput) : RaftNet :=
  let (eng, out) := (s.node i).act (view i) (cfg.peers i) input
  s.update i eng (cfg.mail i out)

def step (view : String → View) (s : RaftNet) : RaftEvent → RaftNet
  | .propose i command now clock =>
    if i ∈ cfg.members then stepAt cfg view s i (.propose command now clock) else s
  | .broadcast i now => if i ∈ cfg.members then stepAt cfg view s i (.broadcast now) else s
  | .deliver k now clock =>
    match s.sent[k]? with
    | none => s
    | some pkt =>
      match cfg.owner pkt.dst with
      | none => s
      | some i => stepAt cfg view s i (.receive pkt now clock)
  | .timeout i fut => if i ∈ cfg.members then stepAt cfg view s i (.timeout fut) else s

def received (s : RaftNet) : RaftEvent → Option (String × Packet RaftMsg)
  | .deliver k _ _ =>
    match s.sent[k]? with
    | none => none
    | some pkt => (cfg.owner pkt.dst).map fun i => (i, pkt)
  | _ => none

/-- If the event hands a leader a success, the tally is safe there. -/
def SafeTallies (view : String → View) (s : RaftNet) (ev : RaftEvent) : Prop :=
  ∀ i pkt resp, received cfg s ev = some (i, pkt) → pkt.payload = .appendEntriesResponse resp →
    resp.success = true → (view i).role = .leader →
    RaftReplicationEngine.SafeTally (s.node i) (view i).term (cfg.peers i) pkt.src resp.matchIndex

variable {cfg}

theorem safeTallies_of_length_le (h : cfg.members.length ≤ 3) (view : String → View) (s : RaftNet)
    (ev : RaftEvent) : SafeTallies cfg view s ev := by
  intro i pkt resp hrecv _ _ _
  have hi : i ∈ cfg.members := by
    cases ev with
    | deliver k now clock =>
      simp only [received] at hrecv
      split at hrecv
      · cases hrecv
      · obtain ⟨j, hj, heq⟩ := Option.map_eq_some_iff.mp hrecv
        cases heq
        exact (Config.owner_eq_some hj).1
    | propose | broadcast | timeout => cases hrecv
  have hlen := Config.length_peers hi
  exact RaftReplicationEngine.safeTally_of_length_le (by omega) _ _ _ _

def NoSnapshots (s : RaftNet) : Prop :=
  ∀ pkt ∈ s.sent, (∃ req, pkt.payload = .appendEntriesRequest req) ∨
    ∃ resp, pkt.payload = .appendEntriesResponse resp

/-- **What a step of the network can do**: nothing, or one move of one member, on a packet that was
sent to it if it receives one. -/
theorem step_cases {s : RaftNet} (hplain : NoSnapshots s)
    (hlog : ∀ i ∈ cfg.members, (s.node i).log.Uncompacted) (view : String → View) (ev : RaftEvent) :
    step cfg view s ev = s ∨ ∃ i ∈ cfg.members, ∃ input eng out,
      RaftReplicationEngine.Move (view i) (cfg.peers i) (s.node i) input eng out ∧
      (∀ pkt, input.packet? = some pkt → pkt ∈ s.sent ∧ pkt.dst = cfg.addr i ∧
        received cfg s ev = some (i, pkt)) ∧
      step cfg view s ev = s.update i eng (cfg.mail i out) := by
  have hlocal : ∀ i ∈ cfg.members, ∀ input : EngineInput, input.Plain → input.packet? = none →
      ∃ i' ∈ cfg.members, ∃ input' eng out,
        RaftReplicationEngine.Move (view i') (cfg.peers i') (s.node i') input' eng out ∧
        (∀ pkt, input'.packet? = some pkt → pkt ∈ s.sent ∧ pkt.dst = cfg.addr i' ∧
          received cfg s ev = some (i', pkt)) ∧
        stepAt cfg view s i input = s.update i' eng (cfg.mail i' out) := by
    intro i hi input hpl hnone
    refine ⟨i, hi, input, _, _, RaftReplicationEngine.move_act (hlog i hi) hpl, ?_, rfl⟩
    intro pkt hpkt
    rw [hnone] at hpkt
    cases hpkt
  cases ev with
  | propose i command now clock | broadcast i now | timeout i fut =>
    rw [step]
    split_ifs with hi
    · exact Or.inr (hlocal i hi _ trivial rfl)
    · exact Or.inl rfl
  | deliver k now clock =>
    rw [step]
    cases hpkt : s.sent[k]? with
    | none => exact Or.inl rfl
    | some pkt =>
      dsimp only
      cases howner : cfg.owner pkt.dst with
      | none => exact Or.inl rfl
      | some i =>
        obtain ⟨hi, haddr⟩ := Config.owner_eq_some howner
        have hmem := List.mem_of_getElem? hpkt
        have hpl : (EngineInput.receive pkt now clock).Plain := by
          rcases hplain pkt hmem with ⟨req, hreq⟩ | ⟨resp, hresp⟩
          · simp [EngineInput.Plain, hreq]
          · simp [EngineInput.Plain, hresp]
        refine Or.inr ⟨i, hi, _, _, _, RaftReplicationEngine.move_act (hlog i hi) hpl, ?_, rfl⟩
        rintro pkt' ⟨⟩
        exact ⟨hmem, haddr.symm, by simp [received, hpkt, howner]⟩

end RaftNet

end MeshWeaver
