import MeshWeaver.Raft.EngineFacts

/-!
# Progress records, the quorum test and proposals

`matchOf` is the match index recorded under a key. Recording an answer raises it under every key of
the answer (`matchOf_recordAnswer`). A follower's answers are recorded both under its id and under
its address, so the quorum test counts every acknowledging peer twice (`tally_le`).
-/

namespace MeshWeaver

open Lib

theorem FollowerProgress.matchIndex_synchronize (p : FollowerProgress) (success : Bool) (m last : Int) :
    (p.synchronize success m last).matchIndex = if success then max p.matchIndex m else p.matchIndex := by
  cases success <;> rfl

namespace RaftReplicationEngine

variable {eng : Engine} {peers : List Address}

def matchOf (eng : Engine) (key : PeerKey) : Int :=
  match eng.followers.get? key with
  | some p => p.matchIndex
  | none => 0

/-! ### Recording answers -/

theorem initializeFollower_get? (eng : Engine) (key x : PeerKey) :
    (eng.initializeFollower key).followers.get? x =
      if x = key then some ((eng.followers.get? key).getD ⟨key, 0, eng.log.lastIndex + 1⟩)
      else eng.followers.get? x := by
  unfold initializeFollower
  cases hget : eng.followers.get? key with
  | some p => by_cases hx : x = key <;> simp [hx, hget]
  | none => by_cases hx : x = key <;> simp [hx, Dict.get?_insert]

theorem initializeFollower_eq (eng : Engine) (key : PeerKey) :
    ∃ followers, eng.initializeFollower key = { eng with followers } := by
  unfold initializeFollower
  split <;> exact ⟨_, rfl⟩

theorem get?_synchronizeFollowerProgress (eng : Engine) (key : PeerKey) (success : Bool)
    (m last : Int) (x : PeerKey) :
    (eng.synchronizeFollowerProgress key success m last).followers.get? x =
      if x = key then
        some (((eng.followers.get? key).getD ⟨key, 0, eng.log.lastIndex + 1⟩).synchronize success m last)
      else eng.followers.get? x := by
  have hkey := initializeFollower_get? eng key key
  rw [if_pos rfl] at hkey
  unfold synchronizeFollowerProgress
  dsimp only
  rw [hkey]
  rw [Dict.get?_insert, initializeFollower_get?]
  by_cases hx : x = key
  · rw [if_pos hx, if_pos hx]
  · rw [if_neg hx, if_neg hx, if_neg hx]

theorem synchronizeFollowerProgress_get? (eng : Engine) (key : PeerKey) (success : Bool)
    (m last : Int) (x : PeerKey) :
    ∃ p, p.matchIndex = (if success then max (eng.matchOf key) m else eng.matchOf key) ∧
      (eng.synchronizeFollowerProgress key success m last).followers.get? x =
        if x = key then some p else eng.followers.get? x := by
  have hmatch : ((eng.followers.get? key).getD ⟨key, 0, eng.log.lastIndex + 1⟩).matchIndex =
      eng.matchOf key := by
    unfold matchOf
    cases eng.followers.get? key <;> rfl
  refine ⟨_, ?_, get?_synchronizeFollowerProgress eng key success m last x⟩
  rw [FollowerProgress.matchIndex_synchronize, hmatch]

theorem synchronizeFollowerProgress_eq (eng : Engine) (key : PeerKey) (success : Bool) (m last : Int) :
    ∃ followers, eng.synchronizeFollowerProgress key success m last = { eng with followers } := by
  obtain ⟨followers, heq⟩ := initializeFollower_eq eng key
  unfold synchronizeFollowerProgress
  rw [heq]
  dsimp only
  split <;> exact ⟨_, rfl⟩

theorem matchOf_synchronizeFollowerProgress (eng : Engine) (key : PeerKey) (success : Bool)
    (m last : Int) (x : PeerKey) :
    (eng.synchronizeFollowerProgress key success m last).matchOf x =
      if success = true ∧ x = key then max (eng.matchOf x) m else eng.matchOf x := by
  obtain ⟨p, hp, hget⟩ := synchronizeFollowerProgress_get? eng key success m last x
  unfold matchOf at hp ⊢
  rw [hget]
  by_cases hx : x = key
  · subst hx
    cases success <;> simpa using hp
  · simp [hx]

section
variable (resp : AppendEntriesResponse) (keys : List PeerKey)

theorem recordAnswer_eq (eng : Engine) : ∃ followers, eng.recordAnswer resp keys = { eng with followers } := by
  induction keys generalizing eng with
  | nil => exact ⟨_, rfl⟩
  | cons key keys ih =>
    obtain ⟨f, heq⟩ := synchronizeFollowerProgress_eq eng key resp.success resp.matchIndex
      resp.lastLogIndex
    obtain ⟨f', heq'⟩ := ih { eng with followers := f }
    refine ⟨f', ?_⟩
    rw [← heq] at heq'
    exact heq'.trans (by rw [heq])

theorem recordAnswer_kept (eng : Engine) :
    (eng.recordAnswer resp keys).log = eng.log ∧ (eng.recordAnswer resp keys).nodeId = eng.nodeId ∧
      (eng.recordAnswer resp keys).stateMachine = eng.stateMachine ∧
      (eng.recordAnswer resp keys).applyCalls = eng.applyCalls := by
  obtain ⟨followers, heq⟩ := recordAnswer_eq resp keys eng
  simp [heq]

/-- **Recording an answer** raises the match index under each of its keys, on success. -/
theorem matchOf_recordAnswer (eng : Engine) (x : PeerKey) :
    (eng.recordAnswer resp keys).matchOf x =
      if resp.success = true ∧ x ∈ keys then max (eng.matchOf x) resp.matchIndex else eng.matchOf x := by
  induction keys generalizing eng with
  | nil => simp [recordAnswer]
  | cons key keys ih =>
    have hstep := ih (eng.synchronizeFollowerProgress key resp.success resp.matchIndex
      resp.lastLogIndex)
    rw [matchOf_synchronizeFollowerProgress] at hstep
    show (recordAnswer _ resp keys).matchOf x = _
    rw [hstep]
    by_cases hs : resp.success = true
    · by_cases hx : x = key <;> by_cases hmem : x ∈ keys <;> simp [hs, hx, hmem]
    · simp [hs]

theorem isSome_recordAnswer (eng : Engine) (x : PeerKey) :
    ((eng.recordAnswer resp keys).followers.get? x).isSome =
      ((eng.followers.get? x).isSome || decide (x ∈ keys)) := by
  induction keys generalizing eng with
  | nil => simp [recordAnswer]
  | cons key keys ih =>
    obtain ⟨p, -, hget⟩ := synchronizeFollowerProgress_get? eng key resp.success resp.matchIndex
      resp.lastLogIndex x
    show ((recordAnswer _ resp keys).followers.get? x).isSome = _
    rw [ih, hget]
    by_cases hx : x = key <;> simp [hx]

end

/-! ### The quorum test -/

def acknowledging (eng : Engine) (peers : List Address) (i : Int) : Nat :=
  peers.countP fun p => i ≤ eng.matchOf (.addr p)

/-- Every record kept under a node id belongs to a peer, and is not ahead of the record kept under
that peer's address. -/
def Aliased (addr : String → Address) (peers : List Address) (eng : Engine) : Prop :=
  ∀ x, (eng.followers.get? (.node x)).isSome →
    addr x ∈ peers ∧ eng.matchOf (.node x) ≤ eng.matchOf (.addr (addr x))

theorem countP_ofPeers (eng : Engine) (peers : List Address) {i : Int} (hi : 1 ≤ i) :
    (peers.filterMap fun peer =>
      (eng.followers.get? (.addr peer)).map FollowerProgress.matchIndex).countP (fun m => m ≥ i) =
      eng.acknowledging peers i := by
  induction peers with
  | nil => rfl
  | cons p peers ih =>
    have hcons : eng.acknowledging (p :: peers) i =
        eng.acknowledging peers i + if i ≤ eng.matchOf (.addr p) then 1 else 0 := by
      simp [acknowledging, List.countP_cons]
    rw [hcons, ← ih]
    unfold matchOf
    cases hget : eng.followers.get? (.addr p) with
    | none => simp [hget, show ¬ i ≤ 0 by omega]
    | some q => simp [hget, List.countP_cons]

/-- The ids recorded to hold the log up to `i`. -/
def idsAt (i : Int) (items : List (PeerKey × FollowerProgress)) : List String :=
  items.filterMap fun
    | (.node x, p) => if i ≤ p.matchIndex then some x else none
    | (.addr _, _) => none

theorem length_idsAt (i : Int) (items : List (PeerKey × FollowerProgress)) :
    (items.filterMap idMatch).countP (fun m => m ≥ i) = (idsAt i items).length := by
  induction items with
  | nil => rfl
  | cons q items ih =>
    obtain ⟨key, p⟩ := q
    cases key with
    | addr a => exact ih
    | node x =>
      by_cases hle : i ≤ p.matchIndex <;> simpa [idsAt, idMatch, hle, List.countP_cons] using ih

theorem map_idsAt_sublist (i : Int) (items : List (PeerKey × FollowerProgress)) :
    ((idsAt i items).map PeerKey.node).Sublist (items.map Prod.fst) := by
  induction items with
  | nil => exact List.Sublist.slnil
  | cons q items ih =>
    obtain ⟨key, p⟩ := q
    cases key with
    | addr a => exact ih.cons _
    | node x =>
      by_cases hle : i ≤ p.matchIndex
      · simpa [idsAt, hle] using ih
      · simpa [idsAt, hle] using ih.cons _

theorem mem_idsAt {i : Int} {x : String} (hx : x ∈ idsAt i eng.followers.items) :
    (eng.followers.get? (.node x)).isSome ∧ i ≤ eng.matchOf (.node x) := by
  obtain ⟨⟨key, p⟩, hin, hsome⟩ := List.mem_filterMap.mp hx
  cases key with
  | addr a => simp at hsome
  | node y =>
    dsimp only at hsome
    split_ifs at hsome with hle
    cases hsome
    have hget := (Dict.mem_items_iff _ _ _).mp hin
    refine ⟨by rw [hget]; rfl, ?_⟩
    rwa [matchOf, hget]

section tally

variable {addr : String → Address} (hinj : Function.Injective addr) (hal : Aliased addr peers eng)
include hinj hal

theorem length_idsAt_le (i : Int) : (idsAt i eng.followers.items).length ≤ eng.acknowledging peers i := by
  have hnodup : (idsAt i eng.followers.items).Nodup :=
    List.Nodup.of_map _ (eng.followers.nodup.sublist (map_idsAt_sublist i eng.followers.items))
  calc (idsAt i eng.followers.items).length
      = ((idsAt i eng.followers.items).map addr).length := (List.length_map ..).symm
    _ ≤ (peers.filter fun p => i ≤ eng.matchOf (.addr p)).length := by
        refine (List.Nodup.subperm (hnodup.map hinj) ?_).length_le
        intro a ha
        obtain ⟨x, hx, rfl⟩ := List.mem_map.mp ha
        obtain ⟨hsome, hle⟩ := mem_idsAt hx
        obtain ⟨hpeer, hmatch⟩ := hal x hsome
        exact List.mem_filter.mpr ⟨hpeer, by simpa using hle.trans hmatch⟩
    _ = eng.acknowledging peers i := by rw [acknowledging, List.countP_eq_length_filter]

/-- **The tally counts each acknowledging peer at most twice**, and the leader once. -/
theorem tally_le {i : Int} (hi : 1 ≤ i) :
    (eng.matchIndices peers).countP (fun m => m ≥ i) ≤ 1 + 2 * eng.acknowledging peers i := by
  have hpeers := countP_ofPeers eng peers hi
  have hids := length_idsAt_le hinj hal i
  rw [← length_idsAt] at hids
  unfold matchIndices
  rw [List.countP_append, List.countP_cons, hpeers]
  split_ifs <;> omega

theorem half_le_of_hasQuorum {term i : Int} (hi : 1 ≤ i) (hq : eng.hasQuorum term peers i = true) :
    (peers.length + 1) / 2 ≤ 2 * eng.acknowledging peers i := by
  have hcount : quorumRequired peers ≤ (eng.matchIndices peers).countP (fun m => m ≥ i) := by
    have := (of_decide_eq_true hq).2
    exact this
  have htally := tally_le hinj hal hi
  unfold quorumRequired at hcount
  omega

end tally

theorem mem_followerKeys {followerId senderId : String} {src : Address} {n : Nat} {key : PeerKey} :
    key ∈ followerKeys followerId senderId (some src) n ↔
      followerId ≠ "" ∧ key = .node followerId ∨ senderId ≠ "" ∧ key = .node senderId ∨ key = .addr src := by
  unfold followerKeys
  by_cases hf : followerId = "" <;> by_cases hs : senderId = "" <;> simp [hf, hs]

/-- How many of the peers are known to hold the log up to `i` once an answer `m` from `src` is
recorded. -/
def acknowledgingWith (eng : Engine) (peers : List Address) (src : Address) (m i : Int) : Nat :=
  peers.countP fun p => i ≤ eng.matchOf (.addr p) ∨ p = src ∧ i ≤ m

theorem acknowledging_recordAnswer {resp : AppendEntriesResponse} (hs : resp.success = true)
    (eng : Engine) (peers : List Address) (senderId : String) (src : Address) (i : Int) :
    (eng.recordAnswer resp (followerKeys resp.followerId senderId (some src) 0)).acknowledging
      peers i = eng.acknowledgingWith peers src resp.matchIndex i := by
  unfold acknowledging acknowledgingWith
  congr 1
  funext p
  rw [matchOf_recordAnswer]
  by_cases hp : p = src
  · simp [hs, hp, mem_followerKeys]
  · simp [hp, mem_followerKeys]

/-- **The tally is safe**: at no index of the current term that is still to be committed does counting
each acknowledging peer twice reach the quorum without counting it once doing so. -/
def SafeTally (eng : Engine) (term : Int) (peers : List Address) (src : Address) (m : Int) : Prop :=
  ∀ i, eng.log.commitIndex < i → i ≤ eng.log.lastIndex → eng.log.getTerm i = term →
    (peers.length + 1) / 2 ≤ 2 * eng.acknowledgingWith peers src m i →
    (peers.length + 1) / 2 ≤ eng.acknowledgingWith peers src m i

theorem safeTally_of_length_le (h : peers.length ≤ 2) (eng : Engine)
    (term : Int) (src : Address) (m : Int) : SafeTally eng term peers src m := by
  intro i _ _ _ htwice
  omega

/-! ### Answers and proposals -/

/-- **What an answer does to the leader**: it is recorded, and the commit index may go up to an
index of the current term that passes the quorum test. -/
theorem handleAppendEntriesResponse_cases (h : eng.log.Uncompacted) (term : Int)
    (role : ElectionRole) (peers : List Address) (clock : Clock) (resp : AppendEntriesResponse)
    (senderId : String) (addr : Option Address) (port : Nat) :
    let eng₁ := eng.recordAnswer resp (followerKeys resp.followerId senderId addr port)
    let eng' := (eng.handleAppendEntriesResponse term role peers clock resp senderId addr port).1
    eng' = eng₁ ∨
      (resp.success = true ∧ role = .leader ∧ ∃ i, eng.log.commitIndex < i ∧
        i ≤ eng.log.entries.length ∧ eng₁.hasQuorum term peers i = true ∧ CommitsTo eng₁ i eng') := by
  intro eng₁ eng'
  obtain ⟨hlog, -, -, -⟩ := recordAnswer_kept resp
    (followerKeys resp.followerId senderId addr port) eng
  have hun : eng₁.log.Uncompacted := by rw [show eng₁.log = eng.log from hlog]; exact h
  by_cases hs : resp.success = true
  · by_cases hrole : role = .leader
    · have heng' : eng' = (eng₁.checkAndAdvanceQuorumCommit term role peers clock).1 := by
        simp only [eng', handleAppendEntriesResponse, if_pos hs, eng₁]
      rw [heng', checkAndAdvanceQuorumCommit, if_neg (not_not.mpr hrole)]
      dsimp only
      cases hfind : (intRange (eng₁.log.commitIndex + 1) (eng₁.log.lastIndex + 1)).reverse.find?
          (eng₁.hasQuorum term peers) with
      | none => exact Or.inl rfl
      | some i =>
        right
        have hmem := List.mem_of_find?_eq_some hfind
        rw [List.mem_reverse, mem_intRange, hun.lastIndex, show eng₁.log = eng.log from hlog] at hmem
        have hto := commitTo_spec hun clock i
        refine ⟨hs, hrole, i, by omega, by omega, List.find?_some hfind, ?_⟩
        dsimp only
        rcases hres : commitTo clock i eng₁ with ⟨eng₂, out⟩
        rw [hres] at hto
        cases out <;> exact hto
    · left
      simp only [eng', handleAppendEntriesResponse, if_pos hs, checkAndAdvanceQuorumCommit,
        ne_eq, hrole, not_false_eq_true, if_true, eng₁]
  · left
    simp only [eng', handleAppendEntriesResponse, if_neg hs, eng₁]

def Appends (eng : Engine) (term : Int) (e : LogEntry) (eng' : Engine) : Prop :=
  e.index = eng.log.entries.length + 1 ∧ e.term = term ∧
    eng'.log = { eng.log with entries := eng.log.entries ++ [e] } ∧ eng'.nodeId = eng.nodeId ∧
    eng'.followers = eng.followers ∧ eng'.stateMachine = eng.stateMachine ∧
    eng'.applyCalls = eng.applyCalls

theorem Appends.uncompacted {eng' : Engine} {term : Int} {e : LogEntry}
    (h : eng.log.Uncompacted) (ha : Appends eng term e eng') : eng'.log.Uncompacted := by
  obtain ⟨hidx, -, hlog, -⟩ := ha
  rw [hlog]
  exact ⟨h.noSnapshot, h.numbered.append (ContiguousFrom.singleton (by rw [hidx]; omega))⟩

theorem appendCommand_eq (h : eng.log.Uncompacted) (term : Int) (command : Command) (now : Rat) :
    ∃ e : LogEntry, e.index = eng.log.entries.length + 1 ∧ e.term = term ∧
      eng.log.appendCommand term command now = .ok ({ eng.log with entries := eng.log.entries ++ [e] }, e) := by
  unfold RaftLog.appendCommand
  dsimp only
  rw [RaftLog.appendEntry_next rfl]
  exact ⟨_, by rw [h.lastIndex], rfl, rfl⟩

/-- **What a proposal does**: nothing unless the node is leader; a leader appends the command in its
term, and then sends its log to its peers, or commits at once when it has none. -/
theorem proposeCommand_cases (h : eng.log.Uncompacted) (term : Int) (role : ElectionRole)
    (peers : List Address) (now : Rat) (clock : Clock) (command : Command) :
    let r := eng.proposeCommand term role peers now clock command
    role ≠ .leader ∧ r.1 = eng ∧ r.2.2 = [] ∨
    role = .leader ∧ ∃ e eng₁, Appends eng term e eng₁ ∧
      (peers = [] ∧ CommitsTo eng₁ e.index r.1 ∧ r.2.2 = [] ∨
        peers ≠ [] ∧ r.1 = eng₁ ∧
          r.2.2 = peers.map fun peer => (peer, eng₁.requestFor term now peer)) := by
  intro r
  by_cases hrole : role = .leader
  · right
    refine ⟨hrole, ?_⟩
    obtain ⟨e, hidx, hterm, happ⟩ := appendCommand_eq h term
      { command with clientId := some (orStr command.clientId eng.nodeId) } now
    simp only [r, proposeCommand, ne_eq, hrole, not_true_eq_false, if_false, happ]
    by_cases hpeers : peers = []
    · have hap : Appends eng term e
          { eng with log := { eng.log with entries := eng.log.entries ++ [e] } } :=
        ⟨hidx, hterm, rfl, rfl, rfl, rfl, rfl⟩
      refine ⟨e, _, hap, Or.inl ⟨hpeers, ?_⟩⟩
      rw [if_pos hpeers]
      have hto := commitTo_spec (hap.uncompacted h) clock e.index
      rcases hres : commitTo clock e.index
        { eng with log := { eng.log with entries := eng.log.entries ++ [e] } } with ⟨eng₂, out⟩
      rw [hres] at hto
      cases out <;> exact ⟨hto, rfl⟩
    · rw [if_neg hpeers]
      refine ⟨e, _, ?_, Or.inr ⟨hpeers, rfl, ?_⟩⟩
      · exact ⟨hidx, hterm, rfl, rfl, rfl, rfl, rfl⟩
      · simp [broadcastAppendEntries]
  · simp [r, proposeCommand, hrole]

theorem proposalTimeout_kept (eng : Engine) (fut : Nat) :
    (eng.proposalTimeout fut).log = eng.log ∧ (eng.proposalTimeout fut).nodeId = eng.nodeId ∧
      (eng.proposalTimeout fut).followers = eng.followers ∧
      (eng.proposalTimeout fut).stateMachine = eng.stateMachine ∧
      (eng.proposalTimeout fut).applyCalls = eng.applyCalls := by
  unfold proposalTimeout
  split <;> exact ⟨rfl, rfl, rfl, rfl, rfl⟩

end RaftReplicationEngine

end MeshWeaver
